import SimpleNet.Server.Basic

/-!
# The account of a connection

How often the functors of a connection wait in the loops and how often they have run.  A
connection that the server has accepted is in one place at any time: in the map, or handed on
by its `connectDestroyed` functor, or destroyed.  `serverInv_stepped` carries this account through
the steps of all loops and of the destructor, as long as each connection calls
`closeCallback_` once and the destructor does not cut into a close.
-/

namespace SimpleNet

/-! ### Names -/

namespace TcpServer

/-- The buffer of 64 characters holds the longest address with the longest number. -/
theorem connName_eq {name ipPort : Text} {n : Nat} (hip : ipPort.length ≤ 51) (hn : n < 2 ^ 31) :
    connName name ipPort (BitVec.ofNat 32 n) = name ++ '-' :: ipPort ++ '#' :: decimal n := by
  have hlen : ('-' :: ipPort ++ '#' :: decimal n).length ≤ 64 - 1 := by
    have := length_decimal_le hn
    simp only [List.length_append, List.length_cons]
    omega
  rw [connName, toInt_connId hn, snprintf, List.take_of_length_le hlen]
  simp

theorem connName_injective {name ipPort : Text} {m n : Nat} (hip : ipPort.length ≤ 51)
    (hm : m < 2 ^ 31) (hn : n < 2 ^ 31)
    (h : connName name ipPort (BitVec.ofNat 32 m) = connName name ipPort (BitVec.ofNat 32 n)) :
    m = n := by
  rw [connName_eq hip hm, connName_eq hip hn] at h
  exact decimal_injective (List.cons_injective (List.append_cancel_left h))

end TcpServer

/-! ### The account of a connection -/

/-- The connection that a functor is about. -/
def Task.conn : Task → TcpConnectionPtr
  | .connectEstablished c | .removeConnectionInLoop c | .connectDestroyed c => c

/-- The loop that a functor runs in. -/
def Task.home : Task → Nat
  | .connectEstablished c | .connectDestroyed c => c.loop
  | .removeConnectionInLoop _ => 0

/-- The functors that call back nothing. -/
def Task.last : Task → Bool
  | .removeConnectionInLoop _ => false
  | _ => true

def ServerEvent.conn : ServerEvent → TcpConnectionPtr
  | .inserted c _ | .closeCallback c | .erased c _ => c
  | .queued _ f | .ran _ f => f.conn

namespace TcpServer

/-- How often a functor waits in its loop. -/
def waiting (s : TcpServer) (f : Task) : Nat := (s.loops f.home).functors.queue.count f

/-- How often it has run there. -/
def ran (s : TcpServer) (f : Task) : Nat := s.trace.count (.ran f.home f)

/-- How often a connection has called `closeCallback_`. -/
def closed (s : TcpServer) (c : TcpConnectionPtr) : Nat := s.trace.count (.closeCallback c)

section

variable (s : TcpServer) {f g : Task} {c d : TcpConnectionPtr} {l : Nat} {e : ServerEvent}

@[simp] theorem waiting_emit : (s.emit e).waiting g = s.waiting g := rfl

theorem ran_emit : (s.emit e).ran g = s.ran g + if e = .ran g.home g then 1 else 0 := by
  rw [ran, ran, emit, List.count_append, List.count_singleton]
  simp

theorem closed_emit : (s.emit e).closed c = s.closed c + if e = .closeCallback c then 1 else 0 := by
  rw [closed, closed, emit, List.count_append, List.count_singleton]
  simp

@[simp] theorem ran_setLoop {x : ServerLoop} : (s.setLoop l x).ran g = s.ran g := rfl

@[simp] theorem closed_setLoop {x : ServerLoop} : (s.setLoop l x).closed c = s.closed c := rfl

@[simp] theorem setLoop_self {x : ServerLoop} : (s.setLoop l x).loops l = x :=
  Function.update_self _ _ _

theorem setLoop_of_ne {x : ServerLoop} {k : Nat} (h : k ≠ l) : (s.setLoop l x).loops k = s.loops k :=
  Function.update_of_ne h _ _

theorem waiting_setLoop {x : ServerLoop}
    (h : x.functors.queue = (s.loops l).functors.queue) : (s.setLoop l x).waiting g = s.waiting g := by
  by_cases hl : g.home = l
  · subst hl
    simp [waiting, setLoop, h]
  · simp [waiting, setLoop, Function.update_of_ne hl]

@[simp] theorem ran_queueInLoop : (s.queueInLoop l f).ran g = s.ran g := by
  rw [queueInLoop, ran_setLoop, ran_emit]
  simp

@[simp] theorem closed_queueInLoop : (s.queueInLoop l f).closed c = s.closed c := by
  rw [queueInLoop, closed_setLoop, closed_emit]
  simp

theorem waiting_queueInLoop (hf : f.home = l) :
    (s.queueInLoop l f).waiting g = s.waiting g + if f = g then 1 else 0 := by
  subst hf
  by_cases hl : g.home = f.home
  · simp only [waiting, queueInLoop, setLoop, hl, Function.update_self, Batched.count_push]
  · have hfg : f ≠ g := fun h => hl (h ▸ rfl)
    simp [waiting, queueInLoop, setLoop, Function.update_of_ne hl, hfg, emit]

/-- A functor is taken off the batch. -/
def pop (l : Nat) : TcpServer :=
  s.setLoop l { s.loops l with functors := (s.loops l).functors.tail }

@[simp] theorem ran_pop : (s.pop l).ran g = s.ran g := rfl

theorem waiting_pop {fs : List Task} (hr : (s.loops f.home).functors.rest = f :: fs) :
    s.waiting g = (s.pop f.home).waiting g + if f = g then 1 else 0 := by
  by_cases hl : g.home = f.home
  · simp only [waiting, pop, setLoop, hl, Function.update_self, Batched.count_of_rest hr]
  · have hfg : f ≠ g := fun h => hl (h ▸ rfl)
    simp [waiting, pop, setLoop, Function.update_of_ne hl, hfg]

end

/-! ### What the operations change -/

/-- `t` differs from `s` in queues and history only. -/
structure Same (s t : TcpServer) : Prop where
  name : t.name = s.name
  ipPort : t.ipPort = s.ipPort
  nextConnId : t.nextConnId = s.nextConnId
  connections : t.connections = s.connections
  numLoops : t.numLoops = s.numLoops
  next : t.next = s.next
  accepted : t.accepted = s.accepted
  life : t.life = s.life
  aborted : t.aborted = s.aborted
  dangling : t.dangling = s.dangling
  closing : ∀ l, (t.loops l).closing = (s.loops l).closing
  phase : ∀ l, (t.loops l).phase = (s.loops l).phase
  quit : ∀ l, (t.loops l).quit = (s.loops l).quit

theorem Same.trans {s t u : TcpServer} (h : Same s t) (g : Same t u) : Same s u where
  name := g.name.trans h.name
  ipPort := g.ipPort.trans h.ipPort
  nextConnId := g.nextConnId.trans h.nextConnId
  connections := g.connections.trans h.connections
  numLoops := g.numLoops.trans h.numLoops
  next := g.next.trans h.next
  accepted := g.accepted.trans h.accepted
  life := g.life.trans h.life
  aborted := g.aborted.trans h.aborted
  dangling := g.dangling.trans h.dangling
  closing l := (g.closing l).trans (h.closing l)
  phase l := (g.phase l).trans (h.phase l)
  quit l := (g.quit l).trans (h.quit l)

theorem same_setLoop (s : TcpServer) {l : Nat} {x : ServerLoop}
    (hc : x.closing = (s.loops l).closing) (hp : x.phase = (s.loops l).phase)
    (hq : x.quit = (s.loops l).quit) : Same s (s.setLoop l x) := by
  have h : ∀ k, ((s.setLoop l x).loops k).closing = (s.loops k).closing ∧
      ((s.setLoop l x).loops k).phase = (s.loops k).phase ∧
      ((s.setLoop l x).loops k).quit = (s.loops k).quit := by
    intro k
    by_cases hk : k = l
    · subst hk
      rw [setLoop_self]
      exact ⟨hc, hp, hq⟩
    · rw [setLoop_of_ne _ hk]
      exact ⟨rfl, rfl, rfl⟩
  exact ⟨rfl, rfl, rfl, rfl, rfl, rfl, rfl, rfl, rfl, rfl, fun k => (h k).1, fun k => (h k).2.1,
    fun k => (h k).2.2⟩

theorem same_pop (s : TcpServer) (l : Nat) : Same s (s.pop l) := same_setLoop s rfl rfl rfl

/-- The functor `f` is run, or queued in its loop. -/
structure Delivers (s : TcpServer) (f : Task) (t : TcpServer) : Prop where
  same : Same s t
  account : ∀ g, t.ran g + t.waiting g = s.ran g + s.waiting g + if f = g then 1 else 0
  others : ∀ g, g ≠ f → t.ran g = s.ran g ∧ t.waiting g = s.waiting g
  le : ∀ g, s.ran g ≤ t.ran g
  closed : ∀ c, t.closed c = s.closed c
  queues : ∀ l g, g ∈ (t.loops l).functors.queue →
    g ∈ (s.loops l).functors.queue ∨ g = f ∧ l = f.home
  pending : ∀ l g, g ∈ (t.loops l).functors.pending →
    g ∈ (s.loops l).functors.pending ∨ g = f ∧ l = f.home
  events : ∀ e ∈ t.trace, e ∈ s.trace ∨ e = .ran f.home f ∨ e = .queued f.home f

theorem same_emit (s : TcpServer) (e : ServerEvent) : Same s (s.emit e) :=
  ⟨rfl, rfl, rfl, rfl, rfl, rfl, rfl, rfl, rfl, rfl, fun _ => rfl, fun _ => rfl, fun _ => rfl⟩

theorem delivers_emit (s : TcpServer) (f : Task) : Delivers s f (s.emit (.ran f.home f)) where
  same := same_emit s _
  account g := by
    rw [ran_emit, waiting_emit]
    by_cases hfg : f = g
    · subst hfg
      simp
      omega
    · simp [hfg]
  others g hg := by
    rw [ran_emit, waiting_emit]
    simp [Ne.symm hg]
  le g := by
    rw [ran_emit]
    omega
  closed c := by simp [closed_emit]
  queues l g hg := Or.inl hg
  pending l g hg := Or.inl hg
  events e he := by simpa [emit, or_assoc] using Or.imp_right Or.inl (List.mem_append.mp he)

theorem delivers_queueInLoop (s : TcpServer) (f : Task) :
    Delivers s f (s.queueInLoop f.home f) where
  same := by
    unfold queueInLoop
    exact (same_emit s _).trans (same_setLoop _ rfl rfl rfl)
  account g := by
    rw [ran_queueInLoop, waiting_queueInLoop _ rfl]
    omega
  others g hg := by
    rw [ran_queueInLoop, waiting_queueInLoop _ rfl]
    simp [Ne.symm hg]
  le g := by rw [ran_queueInLoop]
  closed c := by rw [closed_queueInLoop]
  queues l g hg := by
    by_cases hl : l = f.home
    · subst hl
      simp only [queueInLoop, setLoop_self, Batched.queue_push, List.mem_append,
        List.mem_singleton] at hg
      exact hg.imp_right fun h => ⟨h, rfl⟩
    · rw [queueInLoop, setLoop_of_ne _ hl] at hg
      exact Or.inl hg
  pending l g hg := by
    by_cases hl : l = f.home
    · subst hl
      simp only [queueInLoop, setLoop_self, Batched.push_pending, List.mem_append,
        List.mem_singleton] at hg
      exact hg.imp_right fun h => ⟨h, rfl⟩
    · rw [queueInLoop, setLoop_of_ne _ hl] at hg
      exact Or.inl hg
  events e he := by
    simp only [queueInLoop, setLoop, emit, List.mem_append, List.mem_singleton] at he
    exact he.imp_right Or.inr

theorem delivers_runInLoop (s : TcpServer) (cur : Nat) {f : Task} (hf : f.last = true) :
    Delivers s f (s.runInLoop cur f.home f) := by
  unfold runInLoop
  split
  · cases f with
    | removeConnectionInLoop => cases hf
    | _ => exact delivers_emit s _
  · exact delivers_queueInLoop s f

/-- `removeConnectionInLoop` of a connection in the map. -/
theorem removeConnectionInLoop_eq {s : TcpServer} {c : TcpConnectionPtr} (hl : s.life ≠ .destroyed)
    (hc : s.connections.lookup c.name = some c) :
    s.removeConnectionInLoop c = ({ s.emit (.erased c (some c)) with
      connections := s.connections.erase c.name }).queueInLoop c.loop (.connectDestroyed c) := by
  rw [removeConnectionInLoop, if_neg hl, hc]
  rfl

/-- The loops `x` and `y` are at the same points of their code. -/
structure Still (x y : Nat → ServerLoop) : Prop where
  phase : ∀ l, (y l).phase = (x l).phase
  quit : ∀ l, (y l).quit = (x l).quit
  rest : ∀ l, (y l).functors.rest = (x l).functors.rest

theorem Still.refl (x : Nat → ServerLoop) : Still x x := ⟨fun _ => rfl, fun _ => rfl, fun _ => rfl⟩

theorem still_queueInLoop (s : TcpServer) (l : Nat) (f : Task) :
    Still s.loops (s.queueInLoop l f).loops := by
  have h : ∀ k, ((s.queueInLoop l f).loops k).phase = (s.loops k).phase ∧
      ((s.queueInLoop l f).loops k).quit = (s.loops k).quit ∧
      ((s.queueInLoop l f).loops k).functors.rest = (s.loops k).functors.rest := by
    intro k
    by_cases hk : k = l
    · subst hk
      rw [queueInLoop, setLoop_self]
      exact ⟨rfl, rfl, rfl⟩
    · rw [queueInLoop, setLoop_of_ne _ hk]
      exact ⟨rfl, rfl, rfl⟩
  exact ⟨fun k => (h k).1, fun k => (h k).2.1, fun k => (h k).2.2⟩

theorem still_removeConnectionInLoop (s : TcpServer) (c : TcpConnectionPtr) :
    Still s.loops (s.removeConnectionInLoop c).loops := by
  unfold removeConnectionInLoop
  split
  · exact .refl _
  · simp only
    split
    · exact still_queueInLoop { s.emit _ with connections := s.connections.erase c.name } _ _
    · exact .refl _

theorem still_runTask (s : TcpServer) (l : Nat) (f : Task) :
    Still s.loops (s.runTask l f).loops := by
  cases f with
  | removeConnectionInLoop c => exact still_removeConnectionInLoop (s.emit (.ran l _)) c
  | _ => exact .refl _

theorem still_runInLoop (s : TcpServer) (cur l : Nat) (f : Task) :
    Still s.loops (s.runInLoop cur l f).loops := by
  unfold runInLoop
  split
  · exact still_runTask s l f
  · exact still_queueInLoop s l f

theorem still_removeConnection (s : TcpServer) (l : Nat) (c : TcpConnectionPtr) :
    Still s.loops (s.removeConnection l c).loops := by
  unfold removeConnection
  split
  · exact .refl _
  · exact still_runInLoop s l 0 _

/-! ### The steps -/

/-- What each step does, with what it has tested. -/
inductive Stepped (s : TcpServer) : Act → TcpServer → Prop
  | accept (ha : s.life = .alive) : Stepped s .accept s.newConnection
  | handleClose (c : TcpConnectionPtr) (hc : c ∈ s.accepted) :
      Stepped s (.handleClose c) (s.setLoop c.loop { s.loops c.loop with closing := some c })
  | closeCallback (l : Nat) (c : TcpConnectionPtr) (hc : (s.loops l).closing = some c) :
      Stepped s (.closeCallback l)
        (((s.setLoop l { s.loops l with closing := none }).emit (.closeCallback c)).removeConnection
          l c)
  | doPendingFunctors (l : Nat) (hp : (s.loops l).phase = .events) :
      Stepped s (.doPendingFunctors l) (s.setLoop l { s.loops l with
        phase := .functors
        functors := (s.loops l).functors.swap })
  | run (l : Nat) (f : Task) (fs : List Task) (hr : (s.loops l).functors.rest = f :: fs)
      (hp : (s.loops l).phase = .functors) : Stepped s (.run l) ((s.pop l).runTask l f)
  | iterate (l : Nat) (hp : (s.loops l).phase = .functors) (hr : (s.loops l).functors.rest = []) :
      Stepped s (.iterate l) (s.setLoop l { s.loops l with
        phase := if (s.loops l).quit then .stopped else .events })
  | destroy (ha : s.life = .alive) :
      Stepped s .destroy { s with life := .destroying (s.connections.entries.map Sigma.snd) }
  | destroyNext (c : TcpConnectionPtr) (rest : List TcpConnectionPtr)
      (hl : s.life = .destroying rest) (hc : c ∈ rest) : Stepped s (.destroyNext c)
        ({ s with life := .destroying (rest.erase c) }.runInLoop 0 c.loop (.connectDestroyed c))
  | destroyed (hl : s.life = .destroying []) : Stepped s .destroyed { s with life := .destroyed }
  | quit (l : Nat) (hl : s.life = .destroying [] ∨ s.life = .destroyed) :
      Stepped s (.quit l) (s.setLoop l { s.loops l with quit := true })

theorem step_stepped {s t : TcpServer} {a : Act} (hst : step s a = some t) : Stepped s a t := by
  unfold step at hst
  split at hst
  · cases hst
  cases a with
  | accept =>
    simp only [Option.ite_none_right_eq_some, Option.some.injEq] at hst
    obtain ⟨⟨ha, -⟩, rfl⟩ := hst
    exact .accept ha
  | handleClose c =>
    simp only [Option.ite_none_right_eq_some, Option.some.injEq] at hst
    obtain ⟨⟨hc, -⟩, rfl⟩ := hst
    exact .handleClose c hc
  | closeCallback l =>
    simp only at hst
    split at hst
    · next c hc =>
      simp only [Option.ite_none_right_eq_some, Option.some.injEq] at hst
      obtain ⟨-, rfl⟩ := hst
      exact .closeCallback l c hc
    · cases hst
  | doPendingFunctors l =>
    simp only [Option.ite_none_right_eq_some, Option.some.injEq] at hst
    obtain ⟨hi, rfl⟩ := hst
    exact .doPendingFunctors l hi.2.2
  | run l =>
    simp only at hst
    split at hst
    · next f fs hr =>
      simp only [Option.ite_none_right_eq_some, Option.some.injEq] at hst
      obtain ⟨hi, rfl⟩ := hst
      exact .run l f fs hr hi.2.2
    · cases hst
  | iterate l =>
    simp only [Option.ite_none_right_eq_some, Option.some.injEq] at hst
    obtain ⟨⟨hi, hr⟩, rfl⟩ := hst
    exact .iterate l hi.2.2 hr
  | destroy =>
    simp only [Option.ite_none_right_eq_some, Option.some.injEq] at hst
    obtain ⟨ha, rfl⟩ := hst
    exact .destroy ha
  | destroyNext c =>
    simp only at hst
    split at hst
    · next rest hl =>
      simp only [Option.ite_none_right_eq_some, Option.some.injEq] at hst
      obtain ⟨hc, rfl⟩ := hst
      exact .destroyNext c rest hl hc
    · cases hst
  | destroyed =>
    simp only [Option.ite_none_right_eq_some, Option.some.injEq] at hst
    obtain ⟨hl, rfl⟩ := hst
    exact .destroyed hl
  | quit l =>
    simp only [Option.ite_none_right_eq_some, Option.some.injEq] at hst
    obtain ⟨⟨-, hl⟩, rfl⟩ := hst
    exact .quit l hl

/-- A batch is being run in `doPendingFunctors` only. -/
def Batches (x : Nat → ServerLoop) : Prop :=
  ∀ l, (x l).phase ≠ .functors → (x l).functors.rest = []

theorem Still.batches {x y : Nat → ServerLoop} (h : Still x y) (hb : Batches x) : Batches y := by
  intro l hp
  rw [h.phase] at hp
  rw [h.rest, hb l hp]

theorem Batches.setLoop {s : TcpServer} (hb : Batches s.loops) {l : Nat} {x : ServerLoop}
    (hx : x.phase ≠ .functors → x.functors.rest = []) : Batches (s.setLoop l x).loops := by
  intro k hp
  by_cases hk : k = l
  · subst hk
    rw [setLoop_self] at hp ⊢
    exact hx hp
  · rw [setLoop_of_ne _ hk] at hp ⊢
    exact hb k hp

theorem batches_stepped {s t : TcpServer} {a : Act} (hb : Batches s.loops) (hst : Stepped s a t) :
    Batches t.loops := by
  cases hst with
  | accept ha =>
    exact (still_runInLoop { s.emit _ with next := _, nextConnId := _, connections := _, accepted := _ }
      _ _ _).batches hb
  | handleClose c hc => exact hb.setLoop (hb _)
  | closeCallback l c hc =>
    exact (still_removeConnection ((s.setLoop l _).emit _) _ _).batches (hb.setLoop (hb _))
  | doPendingFunctors l hp => exact hb.setLoop fun hn => absurd rfl hn
  | run l f fs hr hp => exact (still_runTask _ _ _).batches (hb.setLoop fun hn => absurd hp hn)
  | iterate l hp hr => exact hb.setLoop fun _ => hr
  | destroy ha => exact hb
  | destroyNext c rest hl hc => exact (still_runInLoop { s with life := _ } _ _ _).batches hb
  | destroyed hl => exact hb
  | quit l hl => exact hb.setLoop (hb _)

/-! ### The invariant -/

/-- The connections are numbered and named in the order in which they were accepted. -/
structure Named (s : TcpServer) : Prop where
  nextConnId : s.nextConnId = BitVec.ofNat 32 (s.accepted.length + 1)
  bound : s.accepted.length < 2 ^ 31
  ipPort : s.ipPort.length ≤ 51
  id : ∀ i c, s.accepted[i]? = some c →
    c.id = i ∧ c.name = connName s.name s.ipPort (BitVec.ofNat 32 (i + 1))
  next : s.numLoops = 0 ∨ s.next < s.numLoops
  loop : ∀ c ∈ s.accepted, c.loop ≤ s.numLoops

theorem Named.name_injective {s : TcpServer} (h : Named s) {c d : TcpConnectionPtr}
    (hc : c ∈ s.accepted) (hd : d ∈ s.accepted) (he : c.name = d.name) : c = d := by
  obtain ⟨i, hi⟩ := List.mem_iff_getElem?.mp hc
  obtain ⟨j, hj⟩ := List.mem_iff_getElem?.mp hd
  have hli := (List.getElem?_eq_some_iff.mp hi).1
  have hlj := (List.getElem?_eq_some_iff.mp hj).1
  have hb := h.bound
  rw [(h.id i c hi).2, (h.id j d hj).2] at he
  have hij := connName_injective h.ipPort (by omega) (by omega) he
  obtain rfl : i = j := by omega
  rw [hi] at hj
  exact Option.some.inj hj

/-- Functors and events are about accepted connections, and in the loops where they belong. -/
structure Placed (s : TcpServer) : Prop where
  tasks : ∀ l, ∀ f ∈ (s.loops l).functors.queue, f.conn ∈ s.accepted ∧ l = f.home
  events : ∀ e ∈ s.trace, e.conn ∈ s.accepted
  ran : ∀ l f, .ran l f ∈ s.trace ∨ .queued l f ∈ s.trace → l = f.home
  closing : ∀ l, ∀ c ∈ (s.loops l).closing, c ∈ s.accepted ∧ c.loop = l

section

variable {s : TcpServer} {c : TcpConnectionPtr} {g : Task}

theorem Placed.waiting_eq_zero (h : Placed s) (hc : g.conn ∉ s.accepted) : s.waiting g = 0 :=
  List.count_eq_zero.mpr fun hg => hc (h.tasks _ _ hg).1

theorem Placed.ran_eq_zero (h : Placed s) (hc : g.conn ∉ s.accepted) : s.ran g = 0 :=
  List.count_eq_zero.mpr fun hg => hc (h.events _ hg)

theorem Placed.closed_eq_zero (h : Placed s) (hc : c ∉ s.accepted) : s.closed c = 0 :=
  List.count_eq_zero.mpr fun hg => hc (h.events _ hg)

end

/-- The server holds the connection: in its map, or in what its destructor has still to do. -/
def held (s : TcpServer) (c : TcpConnectionPtr) : Nat :=
  match s.life with
  | .alive => if s.ran (.removeConnectionInLoop c) = 0 then 1 else 0
  | .destroying rest => if c ∈ rest then 1 else 0
  | .destroyed => 0

/-- The account of an accepted connection. -/
structure Account (s : TcpServer) (c : TcpConnectionPtr) : Prop where
  established : s.ran (.connectEstablished c) + s.waiting (.connectEstablished c) = 1
  closes : s.ran (.removeConnectionInLoop c) + s.waiting (.removeConnectionInLoop c) = s.closed c
  once : s.closed c ≤ 1
  up : 1 ≤ s.closed c → 1 ≤ s.ran (.connectEstablished c)
  /-- it is in one place -/
  place : s.held c + s.ran (.connectDestroyed c) + s.waiting (.connectDestroyed c) = 1

structure ServerInv (s : TcpServer) : Prop where
  named : Named s
  placed : Placed s
  account : ∀ c ∈ s.accepted, Account s c
  table : s.life = .alive → ∀ n c, s.connections.lookup n = some c ↔
    c ∈ s.accepted ∧ c.name = n ∧ s.ran (.removeConnectionInLoop c) = 0
  /-- once the destructor runs, no connection is closing -/
  quiet : s.life ≠ .alive → (∀ c, s.waiting (.removeConnectionInLoop c) = 0) ∧
    ∀ l, (s.loops l).closing = none
  rest : ∀ rest, s.life = .destroying rest → rest.Nodup ∧ ∀ c ∈ rest, c ∈ s.accepted
  aborted : s.aborted = false
  dangling : s.dangling = false

/-! ### The steps -/

section

variable {s t u : TcpServer} {f : Task} {c d : TcpConnectionPtr} {l : Nat}

theorem Named.same (h : Named s) (hs : Same s t) : Named t where
  nextConnId := by rw [hs.nextConnId, hs.accepted, h.nextConnId]
  bound := hs.accepted ▸ h.bound
  ipPort := hs.ipPort ▸ h.ipPort
  id i c hc := by
    rw [hs.accepted] at hc
    rw [hs.name, hs.ipPort]
    exact h.id i c hc
  next := by
    rw [hs.numLoops, hs.next]
    exact h.next
  loop c hc := by
    rw [hs.accepted] at hc
    rw [hs.numLoops]
    exact h.loop c hc

theorem Placed.delivers (h : Placed s) (hd : Delivers s f t) (hf : f.conn ∈ s.accepted) :
    Placed t where
  tasks l g hg := by
    rw [hd.same.accepted]
    rcases hd.queues l g hg with hg | ⟨rfl, rfl⟩
    · exact h.tasks l g hg
    · exact ⟨hf, rfl⟩
  events e he := by
    rw [hd.same.accepted]
    rcases hd.events e he with he | rfl | rfl
    · exact h.events e he
    · exact hf
    · exact hf
  ran l g hg := by
    have hev : ∀ {e : ServerEvent}, e ∈ t.trace → (e = .ran l g ∨ e = .queued l g) →
        (.ran l g ∈ s.trace ∨ .queued l g ∈ s.trace) ∨ l = g.home := by
      intro e he heq
      rcases hd.events e he with he' | rfl | rfl
      · rcases heq with rfl | rfl
        · exact Or.inl (Or.inl he')
        · exact Or.inl (Or.inr he')
      · rcases heq with heq | heq <;> cases heq
        exact Or.inr rfl
      · rcases heq with heq | heq <;> cases heq
        exact Or.inr rfl
    rcases hg with hg | hg
    · exact (hev hg (Or.inl rfl)).elim (h.ran l g) id
    · exact (hev hg (Or.inr rfl)).elim (h.ran l g) id
  closing l c hc := by
    rw [hd.same.closing] at hc
    rw [hd.same.accepted]
    exact h.closing l c hc

/-- What `s` and `t` have in common when a functor that calls back nothing goes on. -/
structure Carries (s t : TcpServer) : Prop where
  life : t.life = s.life
  sums : ∀ g, g.last = true → t.ran g + t.waiting g = s.ran g + s.waiting g
  removals : ∀ c, t.ran (.removeConnectionInLoop c) = s.ran (.removeConnectionInLoop c) ∧
    t.waiting (.removeConnectionInLoop c) = s.waiting (.removeConnectionInLoop c)
  le : ∀ g, s.ran g ≤ t.ran g
  closed : ∀ c, t.closed c = s.closed c

theorem Carries.held (h : Carries s t) (c : TcpConnectionPtr) : t.held c = s.held c := by
  rw [TcpServer.held, TcpServer.held, h.life, (h.removals c).1]

/-- Nothing about the connection has changed. -/
theorem Account.congr (h : Account s c)
    (hg : ∀ g : Task, g.conn = c → t.ran g = s.ran g ∧ t.waiting g = s.waiting g)
    (hc : t.closed c = s.closed c) (hh : t.held c = s.held c) : Account t c := by
  have h1 := hg (.connectEstablished c) rfl
  have h2 := hg (.removeConnectionInLoop c) rfl
  have h3 := hg (.connectDestroyed c) rfl
  refine ⟨?_, ?_, ?_, ?_, ?_⟩
  · rw [h1.1, h1.2, h.established]
  · rw [h2.1, h2.2, hc, h.closes]
  · rw [hc]
    exact h.once
  · rw [hc, h1.1]
    exact h.up
  · rw [hh, h3.1, h3.2, h.place]

theorem Account.carries (h : Account s c) (ht : Carries s t) : Account t c where
  established := by rw [ht.sums _ rfl, h.established]
  closes := by rw [(ht.removals c).1, (ht.removals c).2, ht.closed, h.closes]
  once := by rw [ht.closed]; exact h.once
  up hc := by
    rw [ht.closed] at hc
    exact (h.up hc).trans (ht.le _)
  place := by
    have := h.place
    have := ht.sums (.connectDestroyed c) rfl
    rw [ht.held]
    omega

/-- A change of one loop that leaves its queue as it is. -/
theorem ServerInv.setLoop (h : ServerInv s) {x : ServerLoop}
    (hq : x.functors.queue = (s.loops l).functors.queue)
    (hc : ∀ c ∈ x.closing, c ∈ s.accepted ∧ c.loop = l) (hl : s.life ≠ .alive → x.closing = none) :
    ServerInv (s.setLoop l x) := by
  have hcarries : Carries s (s.setLoop l x) := ⟨rfl, fun g _ => by
    rw [ran_setLoop, waiting_setLoop s hq], fun c => ⟨rfl, waiting_setLoop s hq⟩, fun _ => le_rfl,
    fun _ => rfl⟩
  refine ⟨⟨h.named.nextConnId, h.named.bound, h.named.ipPort, h.named.id, h.named.next,
    h.named.loop⟩, ⟨?_, h.placed.events, h.placed.ran, ?_⟩,
    fun c hc => (h.account c hc).carries hcarries, h.table, fun ha => ⟨?_, ?_⟩, h.rest, h.aborted,
    h.dangling⟩
  · intro k f hf
    by_cases hk : k = l
    · rw [hk, setLoop_self, hq] at hf
      rw [hk]
      exact h.placed.tasks l f hf
    · rw [setLoop_of_ne _ hk] at hf
      exact h.placed.tasks k f hf
  · intro k c hk
    by_cases hkl : k = l
    · rw [hkl, setLoop_self] at hk
      rw [hkl]
      exact hc c hk
    · rw [setLoop_of_ne _ hkl] at hk
      exact h.placed.closing k c hk
  · intro c
    rw [(hcarries.removals c).2]
    exact (h.quiet ha).1 c
  · intro k
    by_cases hk : k = l
    · rw [hk, setLoop_self, hl ha]
    · rw [setLoop_of_ne _ hk]
      exact (h.quiet ha).2 k

theorem Placed.pop (h : Placed s) (l : Nat) : Placed (s.pop l) where
  tasks k g hg := by
    by_cases hk : k = l
    · subst hk
      rw [TcpServer.pop, setLoop_self] at hg
      exact h.tasks _ g (Batched.mem_queue_of_tail hg)
    · rw [TcpServer.pop, setLoop_of_ne _ hk] at hg
      exact h.tasks k g hg
  events := h.events
  ran := h.ran
  closing k c hc := by
    rw [(same_pop s l).closing] at hc
    exact h.closing k c hc

/-- A step that keeps the account of each connection, apart from functors that go on. -/
theorem ServerInv.carries (h : ServerInv s) (hs : Same s t) (hp : Placed t) (ht : Carries s t) :
    ServerInv t where
  named := h.named.same hs
  placed := hp
  account c hc := (h.account c (hs.accepted ▸ hc)).carries ht
  table ha n c := by
    rw [hs.connections, hs.accepted, (ht.removals c).1]
    exact h.table (hs.life ▸ ha) n c
  quiet ha := by
    have hq := h.quiet (hs.life ▸ ha)
    refine ⟨?_, ?_⟩
    · intro c
      rw [(ht.removals c).2]
      exact hq.1 c
    · intro l
      rw [hs.closing]
      exact hq.2 l
  rest r hr := by
    rw [hs.accepted]
    exact h.rest r (hs.life ▸ hr)
  aborted := hs.aborted ▸ h.aborted
  dangling := hs.dangling ▸ h.dangling

/-- A functor that calls back nothing is run. -/
theorem serverInv_run_last (h : ServerInv s) {fs : List Task}
    (hr : (s.loops f.home).functors.rest = f :: fs) (hf : f.last = true) :
    ServerInv ((s.pop f.home).emit (.ran f.home f)) := by
  have hmem := (h.placed.tasks _ f (Batched.mem_queue_of_rest hr)).1
  have hd := delivers_emit (s.pop f.home) f
  have hsame : Same s ((s.pop f.home).emit (.ran f.home f)) := (same_pop s _).trans hd.same
  refine h.carries hsame ((h.placed.pop _).delivers hd hmem) ⟨hsame.life, ?_, ?_, hd.le, hd.closed⟩
  · intro g _
    have := hd.account g
    have := waiting_pop s (g := g) hr
    rw [ran_pop] at *
    omega
  · intro c
    have hne : Task.removeConnectionInLoop c ≠ f := by
      rintro rfl
      cases hf
    have := waiting_pop s (g := .removeConnectionInLoop c) hr
    rw [if_neg (Ne.symm hne), Nat.add_zero] at this
    rw [(hd.others _ hne).1, (hd.others _ hne).2, this]
    exact ⟨rfl, rfl⟩

theorem ServerInv.lookup (h : ServerInv s) (ha : s.life = .alive) (hc : c ∈ s.accepted)
    (hr : s.ran (.removeConnectionInLoop c) = 0) : s.connections.lookup c.name = some c :=
  (h.table ha _ c).mpr ⟨hc, rfl, hr⟩

/-- The state in which `removeConnectionInLoop(c)` starts. -/
structure Removing (s : TcpServer) (c : TcpConnectionPtr) : Prop where
  named : Named s
  placed : Placed s
  life : s.life = .alive
  table : ∀ n d, s.connections.lookup n = some d ↔
    d ∈ s.accepted ∧ d.name = n ∧ s.ran (.removeConnectionInLoop d) = 0
  others : ∀ d ∈ s.accepted, d ≠ c → Account s d
  mem : c ∈ s.accepted
  closed : s.closed c = 1
  ran : s.ran (.removeConnectionInLoop c) = 0
  waiting : s.waiting (.removeConnectionInLoop c) = 0
  established : s.ran (.connectEstablished c) = 1 ∧ s.waiting (.connectEstablished c) = 0
  destroyed : s.ran (.connectDestroyed c) = 0 ∧ s.waiting (.connectDestroyed c) = 0
  aborted : s.aborted = false
  dangling : s.dangling = false

theorem lookup_of_removing (h : Removing s c) : s.connections.lookup c.name = some c :=
  (h.table _ c).mpr ⟨h.mem, rfl, h.ran⟩

/-- The map lets go of the connection. -/
def unlink (s : TcpServer) (c : TcpConnectionPtr) : TcpServer :=
  { (s.emit (.ran 0 (.removeConnectionInLoop c))).emit (.erased c (some c)) with
    connections := s.connections.erase c.name }

theorem ran_unlink (s : TcpServer) (c : TcpConnectionPtr) (g : Task) :
    (s.unlink c).ran g = s.ran g + if g = .removeConnectionInLoop c then 1 else 0 := by
  show ((s.emit _).emit _).ran g = _
  rw [ran_emit, ran_emit]
  by_cases hg : g = .removeConnectionInLoop c
  · subst hg
    simp [Task.home]
  · have : ServerEvent.ran 0 (.removeConnectionInLoop c) ≠ .ran g.home g := fun he =>
      hg (ServerEvent.ran.inj he).2.symm
    simp [hg, this]

theorem waiting_unlink (s : TcpServer) (c : TcpConnectionPtr) (g : Task) :
    (s.unlink c).waiting g = s.waiting g := rfl

theorem closed_unlink (s : TcpServer) (c d : TcpConnectionPtr) :
    (s.unlink c).closed d = s.closed d := by
  show ((s.emit _).emit _).closed d = _
  simp [closed_emit]

theorem Named.unlink (h : Named s) (c : TcpConnectionPtr) : Named (s.unlink c) :=
  ⟨h.nextConnId, h.bound, h.ipPort, h.id, h.next, h.loop⟩

theorem Placed.unlink (h : Placed s) (hc : c ∈ s.accepted) : Placed (s.unlink c) := by
  refine ⟨h.tasks, ?_, ?_, h.closing⟩
  · intro e he
    simp only [TcpServer.unlink, emit, List.mem_append, List.mem_singleton] at he
    rcases he with (he | rfl) | rfl
    · exact h.events e he
    · exact hc
    · exact hc
  · intro l g hg
    simp only [TcpServer.unlink, emit, List.mem_append, List.mem_singleton, reduceCtorEq, or_false,
      ServerEvent.ran.injEq] at hg
    rcases hg with (hg | ⟨rfl, rfl⟩) | hg
    · exact h.ran l g (Or.inl hg)
    · rfl
    · exact h.ran l g (Or.inr hg)

theorem runTask_unlink (h : Removing s c) : s.runTask 0 (.removeConnectionInLoop c) =
    (s.unlink c).queueInLoop c.loop (.connectDestroyed c) := by
  refine removeConnectionInLoop_eq ?_ (show s.connections.lookup c.name = _ from lookup_of_removing h)
  show s.life ≠ .destroyed
  simp [h.life]

/-- The account of the connection that is handed on. -/
theorem Removing.account (h : Removing s c) (hd : Delivers (s.unlink c) (.connectDestroyed c) t) :
    Account t c := by
  have hlife : t.life = .alive := hd.same.life.trans h.life
  have h1 := hd.others (.connectEstablished c) (by simp)
  have h2 := hd.others (.removeConnectionInLoop c) (by simp)
  have h3 := hd.account (.connectDestroyed c)
  simp only [ran_unlink, waiting_unlink, reduceCtorEq, if_false, if_true, Nat.add_zero] at h1 h2 h3
  have hclosed : t.closed c = 1 := by rw [hd.closed, closed_unlink, h.closed]
  have hheld : t.held c = 0 := by simp [TcpServer.held, hlife, h2.1]
  refine ⟨?_, ?_, hclosed.le, ?_, ?_⟩
  · rw [h1.1, h1.2, h.established.1, h.established.2]
  · rw [h2.1, h2.2, hclosed, h.ran, h.waiting]
  · intro _
    rw [h1.1, h.established.1]
  · rw [h.destroyed.1, h.destroyed.2] at h3
    omega

/-- The accounts of the others. -/
theorem Removing.account_of_ne (h : Removing s c)
    (hd : Delivers (s.unlink c) (.connectDestroyed c) t) (hm : d ∈ s.accepted) (hdc : d ≠ c) :
    Account t d := by
  refine (h.others d hm hdc).congr ?_ ((hd.closed d).trans (closed_unlink s c d)) ?_
  · intro g hg
    have hne : g ≠ .connectDestroyed c ∧ g ≠ .removeConnectionInLoop c := by
      constructor <;> (rintro rfl; exact hdc hg.symm)
    rw [(hd.others g hne.1).1, (hd.others g hne.1).2, ran_unlink, if_neg hne.2]
    exact ⟨rfl, rfl⟩
  · have hne : Task.removeConnectionInLoop d ≠ .removeConnectionInLoop c := by simp [hdc]
    rw [TcpServer.held, TcpServer.held, hd.same.life, h.life,
      show (s.unlink c).life = .alive from h.life,
      (hd.others _ (by simp)).1, ran_unlink, if_neg hne, Nat.add_zero]

/-- The map holds the others. -/
theorem Removing.lookup (h : Removing s c) (n : Text) (d : TcpConnectionPtr) :
    (s.unlink c).connections.lookup n = some d ↔
      d ∈ s.accepted ∧ d.name = n ∧ (s.unlink c).ran (.removeConnectionInLoop d) = 0 := by
  rw [ran_unlink]
  show (s.connections.erase c.name).lookup n = some d ↔ _
  by_cases hn : n = c.name
  · subst hn
    simp only [AList.lookup_erase, reduceCtorEq, false_iff, not_and]
    intro hd' hname
    obtain rfl := h.named.name_injective hd' h.mem hname
    simp
  · rw [AList.lookup_erase_ne hn, h.table]
    refine and_congr_right fun _ => and_congr_right ?_
    intro hname
    have hdc : d ≠ c := by
      rintro rfl
      exact hn hname.symm
    simp [hdc]

/-- `removeConnectionInLoop` hands the connection on from the map to its loop. -/
theorem serverInv_removing (h : Removing s c) :
    ServerInv (s.runTask 0 (.removeConnectionInLoop c)) := by
  have hd : Delivers (s.unlink c) (.connectDestroyed c) (s.runTask 0 (.removeConnectionInLoop c)) :=
    runTask_unlink h ▸ delivers_queueInLoop (s.unlink c) (.connectDestroyed c)
  generalize s.runTask 0 (.removeConnectionInLoop c) = t at hd
  have hacc : t.accepted = s.accepted := hd.same.accepted
  have hlife : t.life = .alive := hd.same.life.trans h.life
  refine ⟨(h.named.unlink c).same hd.same, (h.placed.unlink h.mem).delivers hd h.mem, ?_, ?_,
    fun ha => absurd hlife ha, ?_, hd.same.aborted.trans h.aborted, hd.same.dangling.trans h.dangling⟩
  · intro d hm
    by_cases hdc : d = c
    · rw [hdc]
      exact h.account hd
    · exact h.account_of_ne hd (hacc ▸ hm) hdc
  · intro _ n d
    rw [hd.same.connections, hacc, (hd.others _ (by simp)).1]
    exact h.lookup n d
  · intro r hr
    rw [hlife] at hr
    cases hr

/-- `removeConnectionInLoop(c)` starts in `t`, where it is not waiting any more. -/
theorem removing_of_inv (h : ServerInv s) (ha : s.life = .alive) (hc : c ∈ s.accepted)
    (hr : s.ran (.removeConnectionInLoop c) = 0) (he : 1 ≤ s.ran (.connectEstablished c))
    (hn : Named t) (hp : Placed t) (hl : t.life = s.life) (hcon : t.connections = s.connections)
    (hacc : t.accepted = s.accepted) (hran : ∀ g, t.ran g = s.ran g)
    (hw : ∀ g, g ≠ .removeConnectionInLoop c → t.waiting g = s.waiting g)
    (hcl : ∀ d, d ≠ c → t.closed d = s.closed d) (hw' : t.waiting (.removeConnectionInLoop c) = 0)
    (hcl' : t.closed c = 1) (hab : t.aborted = s.aborted) (hda : t.dangling = s.dangling) :
    Removing t c := by
  have hac := h.account c hc
  have hheld : s.held c = 1 := by simp [TcpServer.held, ha, hr]
  have hest := hac.established
  have hplace := hac.place
  refine ⟨hn, hp, hl.trans ha, ?_, ?_, hacc ▸ hc, hcl', ?_, hw', ?_, ?_, hab.trans h.aborted,
    hda.trans h.dangling⟩
  · intro n d
    rw [hcon, hacc, hran]
    exact h.table ha n d
  · intro d hd hdc
    refine (h.account d (hacc ▸ hd)).congr (fun g hg => ⟨hran g, hw g ?_⟩) (hcl d hdc) ?_
    · rintro rfl
      exact hdc hg.symm
    · rw [TcpServer.held, TcpServer.held, hl, hran]
  · rw [hran, hr]
  · rw [hran, hw _ (by simp)]
    omega
  · rw [hran, hw _ (by simp)]
    omega

/-- A queued `removeConnectionInLoop` runs. -/
theorem serverInv_run_remove (h : ServerInv s) {fs : List Task}
    (hr : (s.loops 0).functors.rest = .removeConnectionInLoop c :: fs) :
    ServerInv ((s.pop 0).runTask 0 (.removeConnectionInLoop c)) := by
  have hmem := (h.placed.tasks _ _ (Batched.mem_queue_of_rest hr)).1
  have hw := fun g => waiting_pop s (f := .removeConnectionInLoop c) (g := g) hr
  have h1 := hw (.removeConnectionInLoop c)
  rw [if_pos rfl] at h1
  change _ = (s.pop 0).waiting _ + 1 at h1
  have ha : s.life = .alive := by
    by_contra ha
    rw [(h.quiet ha).1 c] at h1
    omega
  have hcloses := (h.account c hmem).closes
  have honce := (h.account c hmem).once
  refine serverInv_removing (removing_of_inv h ha hmem ?_ ((h.account c hmem).up ?_)
    (h.named.same (same_pop s 0)) (h.placed.pop 0) rfl rfl rfl (fun _ => rfl) ?_
    (fun _ _ => rfl) ?_ ?_ rfl rfl)
  · omega
  · omega
  · intro g hg
    have := hw g
    rw [if_neg (Ne.symm hg), Nat.add_zero] at this
    exact this.symm
  · omega
  · show s.closed c = 1
    omega

theorem Placed.emit (h : Placed s) {e : ServerEvent} (he : e.conn ∈ s.accepted)
    (hr : ∀ l g, e ≠ .ran l g ∧ e ≠ .queued l g) : Placed (s.emit e) where
  tasks := h.tasks
  events d hd := by
    rcases List.mem_append.mp hd with hd | hd
    · exact h.events d hd
    · rw [List.mem_singleton.mp hd]
      exact he
  ran l g hg := by
    refine h.ran l g (hg.imp ?_ ?_)
    · intro hg
      apply (List.mem_append.mp hg).resolve_right
      intro he
      exact (hr l g).1 (List.mem_singleton.mp he).symm
    · intro hg
      apply (List.mem_append.mp hg).resolve_right
      intro he
      exact (hr l g).2 (List.mem_singleton.mp he).symm
  closing := h.closing

/-- `closeCallback_` calls `removeConnection`. -/
theorem serverInv_removeConnection (h : ServerInv s) (ha : s.life = .alive) (hc : c ∈ s.accepted)
    (hcl : s.closed c = 0) (he : 1 ≤ s.ran (.connectEstablished c)) :
    ServerInv ((s.emit (.closeCallback c)).removeConnection l c) := by
  have hac := h.account c hc
  have hcloses := hac.closes
  have hran : ∀ g, (s.emit (.closeCallback c)).ran g = s.ran g := fun g => by
    rw [ran_emit]
    simp
  have hclosed : ∀ d, (s.emit (.closeCallback c)).closed d = s.closed d + if c = d then 1 else 0 :=
    fun d => by
      rw [closed_emit]
      simp
  have hplaced : Placed (s.emit (.closeCallback c)) := h.placed.emit hc (by simp)
  have hnamed : Named (s.emit (.closeCallback c)) := h.named.same (same_emit s _)
  have hlife : (s.emit (.closeCallback c)).life = .alive := ha
  rw [removeConnection, if_neg (by simp [hlife]), runInLoop]
  split
  · refine serverInv_removing (removing_of_inv h ha hc ?_ he hnamed hplaced rfl rfl rfl hran
      (fun _ _ => rfl) ?_ ?_ ?_ rfl rfl)
    · omega
    · intro d hd
      rw [hclosed, if_neg (Ne.symm hd), Nat.add_zero]
    · show s.waiting _ = 0
      omega
    · rw [hclosed, if_pos rfl, hcl]
  · have hd := delivers_queueInLoop (s.emit (.closeCallback c)) (.removeConnectionInLoop c)
    have hrt : ∀ g, ((s.emit (.closeCallback c)).queueInLoop 0 (.removeConnectionInLoop c)).ran g =
        s.ran g := fun g => (ran_queueInLoop _).trans (hran g)
    have hwt : ∀ g, ((s.emit (.closeCallback c)).queueInLoop 0 (.removeConnectionInLoop c)).waiting g =
        s.waiting g + if .removeConnectionInLoop c = g then 1 else 0 :=
      fun g => waiting_queueInLoop _ rfl
    change Delivers _ _ ((s.emit (.closeCallback c)).queueInLoop 0 _) at hd
    generalize (s.emit (.closeCallback c)).queueInLoop 0 (.removeConnectionInLoop c) = t at hd hrt hwt
    have hlt : t.life = .alive := hd.same.life.trans hlife
    have hheld : ∀ d, t.held d = s.held d := fun d => by
      rw [TcpServer.held, TcpServer.held, hlt, ha, hrt]
    refine ⟨hnamed.same hd.same, hplaced.delivers hd hc, ?_, ?_, fun hn => absurd hlt hn, ?_,
      hd.same.aborted.trans h.aborted, hd.same.dangling.trans h.dangling⟩
    · intro d hd'
      have hdm : d ∈ s.accepted := hd.same.accepted ▸ hd'
      by_cases hdc : d = c
      · subst hdc
        have hw1 := hwt (.removeConnectionInLoop d)
        have hw2 := hwt (.connectEstablished d)
        have hw3 := hwt (.connectDestroyed d)
        simp only [reduceCtorEq, if_true, if_false, Nat.add_zero] at hw1 hw2 hw3
        have hct : t.closed d = 1 := by rw [hd.closed, hclosed, if_pos rfl, hcl]
        refine ⟨?_, ?_, hct.le, ?_, ?_⟩
        · rw [hrt, hw2, hac.established]
        · rw [hrt, hw1, hct]
          omega
        · intro _
          rw [hrt]
          exact he
        · rw [hheld, hrt, hw3, hac.place]
      · refine (h.account d hdm).congr (fun g hg => ⟨hrt g, ?_⟩) ?_ (hheld d)
        · have hne : .removeConnectionInLoop c ≠ g := by
            rintro rfl
            exact hdc hg.symm
          rw [hwt, if_neg hne, Nat.add_zero]
        · rw [hd.closed, hclosed, if_neg (Ne.symm hdc), Nat.add_zero]
    · intro _ n d
      rw [hd.same.connections, hd.same.accepted, hrt]
      exact h.table ha n d
    · intro r hr
      rw [hlt] at hr
      cases hr

/-- `closeCallback_` is called. -/
theorem serverInv_closeCallback (h : ServerInv s) (hc : (s.loops l).closing = some c)
    (hcl : s.closed c = 0) (he : 1 ≤ s.ran (.connectEstablished c)) :
    ServerInv (((s.setLoop l { s.loops l with closing := none }).emit
      (.closeCallback c)).removeConnection l c) := by
  have ha : s.life = .alive := by
    by_contra ha
    rw [(h.quiet ha).2] at hc
    cases hc
  have hinv : ServerInv (s.setLoop l { s.loops l with closing := none }) :=
    h.setLoop rfl (by simp) fun _ => rfl
  exact serverInv_removeConnection hinv ha (h.placed.closing l c hc).1 hcl he

theorem getNextLoop_spec (h : s.numLoops = 0 ∨ s.next < s.numLoops) :
    s.getNextLoop.1 ≤ s.numLoops ∧ (s.numLoops = 0 ∨ s.getNextLoop.2 < s.numLoops) := by
  unfold getNextLoop
  split
  · next h0 => exact ⟨Nat.zero_le _, Or.inl h0⟩
  · next h0 =>
    simp only
    split
    · exact ⟨by omega, by omega⟩
    · exact ⟨by omega, by omega⟩

theorem Named.accept (h : Named s) (hb : s.accepted.length + 1 < 2 ^ 31)
    (hid : c.id = s.accepted.length) (hl : c.loop = s.getNextLoop.1)
    (hname : c.name = connName s.name s.ipPort s.nextConnId) (hn : t.name = s.name)
    (hip : t.ipPort = s.ipPort) (hnext : t.nextConnId = s.nextConnId + 1)
    (hnum : t.numLoops = s.numLoops) (hpool : t.next = s.getNextLoop.2)
    (hacc : t.accepted = s.accepted ++ [c]) : Named t where
  nextConnId := by
    rw [hnext, hacc, h.nextConnId, List.length_append, List.length_singleton,
      BitVec.ofNat_add (s.accepted.length + 1)]
    rfl
  bound := by
    rw [hacc, List.length_append, List.length_singleton]
    exact hb
  ipPort := hip ▸ h.ipPort
  id i d hd := by
    rw [hacc] at hd
    rw [hn, hip]
    by_cases hi : i < s.accepted.length
    · rw [List.getElem?_append_left hi] at hd
      exact h.id i d hd
    · obtain ⟨hlt, hget⟩ := List.getElem?_eq_some_iff.mp hd
      rw [List.length_append, List.length_singleton] at hlt
      obtain rfl : i = s.accepted.length := by omega
      rw [List.getElem_concat_length rfl] at hget
      subst hget
      exact ⟨hid, by rw [hname, h.nextConnId]⟩
  next := by
    rw [hnum, hpool]
    exact (getNextLoop_spec h.next).2
  loop d hd := by
    rw [hacc] at hd
    rw [hnum]
    rcases List.mem_append.mp hd with hd | hd
    · exact h.loop d hd
    · rw [List.mem_singleton.mp hd, hl]
      exact (getNextLoop_spec h.next).1

theorem Named.not_mem (h : Named s) (hid : c.id = s.accepted.length) : c ∉ s.accepted := by
  intro hc
  obtain ⟨i, hi⟩ := List.mem_iff_getElem?.mp hc
  have hlt := (List.getElem?_eq_some_iff.mp hi).1
  have hi' := (h.id i c hi).1
  omega

/-- The connection that `newConnection` creates. -/
def newConn (s : TcpServer) : TcpConnectionPtr :=
  ⟨s.accepted.length, s.getNextLoop.1, connName s.name s.ipPort s.nextConnId⟩

/-- `newConnection` up to its `runInLoop`. -/
def enlist (s : TcpServer) (c : TcpConnectionPtr) : TcpServer :=
  { s.emit (.inserted c (s.connections.lookup c.name)) with
    next := s.getNextLoop.2
    nextConnId := s.nextConnId + 1
    connections := s.connections.insert c.name c
    accepted := s.accepted ++ [c] }

theorem newConnection_eq (s : TcpServer) : s.newConnection =
    (s.enlist s.newConn).runInLoop 0 s.newConn.loop (.connectEstablished s.newConn) := rfl

theorem ran_enlist (s : TcpServer) (c : TcpConnectionPtr) (g : Task) :
    (s.enlist c).ran g = s.ran g := by
  show (s.emit _).ran g = _
  rw [ran_emit]
  simp

theorem waiting_enlist (s : TcpServer) (c : TcpConnectionPtr) (g : Task) :
    (s.enlist c).waiting g = s.waiting g := rfl

theorem closed_enlist (s : TcpServer) (c d : TcpConnectionPtr) :
    (s.enlist c).closed d = s.closed d := by
  show (s.emit _).closed d = _
  rw [closed_emit]
  simp

theorem Named.enlist (h : Named s) (hb : s.accepted.length + 1 < 2 ^ 31) :
    Named (s.enlist s.newConn) :=
  h.accept hb rfl rfl rfl rfl rfl rfl rfl rfl rfl

theorem Placed.enlist (h : Placed s) (c : TcpConnectionPtr) : Placed (s.enlist c) := by
  have hmem : ∀ {d}, d ∈ s.accepted → d ∈ s.accepted ++ [c] := List.mem_append_left _
  refine ⟨fun l f hf => (h.tasks l f hf).imp_left hmem, ?_, ?_,
    fun l d hd => (h.closing l d hd).imp_left hmem⟩
  · intro e he
    rcases List.mem_append.mp he with he | he
    · exact hmem (h.events e he)
    · rw [List.mem_singleton.mp he]
      exact List.mem_append_right _ List.mem_cons_self
  · intro l g hg
    simp only [TcpServer.enlist, TcpServer.emit, List.mem_append, List.mem_singleton, reduceCtorEq,
      or_false] at hg
    exact h.ran l g hg

/-- The account of the new connection. -/
theorem account_new (h : Placed s) (ha : s.life = .alive) (hnew : c ∉ s.accepted)
    (hd : Delivers (s.enlist c) (.connectEstablished c) t) : Account t c := by
  have hz : ∀ g : Task, g.conn = c → s.ran g = 0 ∧ s.waiting g = 0 := fun g hg =>
    ⟨h.ran_eq_zero (hg ▸ hnew), h.waiting_eq_zero (hg ▸ hnew)⟩
  have h1 := hd.account (.connectEstablished c)
  have h2 := hd.others (.removeConnectionInLoop c) (by simp)
  have h3 := hd.others (.connectDestroyed c) (by simp)
  have hz1 := hz (.connectEstablished c) rfl
  have hz2 := hz (.removeConnectionInLoop c) rfl
  have hz3 := hz (.connectDestroyed c) rfl
  rw [ran_enlist, waiting_enlist, if_pos rfl, hz1.1, hz1.2] at h1
  rw [ran_enlist, waiting_enlist, hz2.1, hz2.2] at h2
  rw [ran_enlist, waiting_enlist, hz3.1, hz3.2] at h3
  have hclosed : t.closed c = 0 := by rw [hd.closed, closed_enlist, h.closed_eq_zero hnew]
  have hlife : t.life = .alive := hd.same.life.trans ha
  have hheld : t.held c = 1 := by simp [TcpServer.held, hlife, h2.1]
  refine ⟨h1, ?_, ?_, ?_, ?_⟩
  · rw [h2.1, h2.2, hclosed]
  · rw [hclosed]
    exact Nat.zero_le _
  · intro hc
    rw [hclosed] at hc
    omega
  · rw [hheld, h3.1, h3.2]

/-- The accounts of the others. -/
theorem Account.enlist (h : Account s d) (ha : s.life = .alive) (hdc : d ≠ c)
    (hd : Delivers (s.enlist c) (.connectEstablished c) t) : Account t d := by
  refine h.congr ?_ ((hd.closed d).trans (closed_enlist s c d)) ?_
  · intro g hg
    have hne : g ≠ .connectEstablished c := by
      rintro rfl
      exact hdc hg.symm
    exact ⟨(hd.others g hne).1.trans (ran_enlist s c g), (hd.others g hne).2⟩
  · rw [TcpServer.held, TcpServer.held, hd.same.life, ha, show (s.enlist c).life = .alive from ha,
      (hd.others _ (by simp)).1, ran_enlist]

/-- The map holds the new connection and the others. -/
theorem ServerInv.lookup_enlist (h : ServerInv s) (ha : s.life = .alive) (hnew : c ∉ s.accepted)
    (hn : Named (s.enlist c)) (n : Text) (d : TcpConnectionPtr) :
    (s.enlist c).connections.lookup n = some d ↔
      d ∈ (s.enlist c).accepted ∧ d.name = n ∧ s.ran (.removeConnectionInLoop d) = 0 := by
  have hmem : c ∈ (s.enlist c).accepted := List.mem_append_right _ List.mem_cons_self
  show (s.connections.insert c.name c).lookup n = some d ↔ _
  by_cases hcn : n = c.name
  · subst hcn
    rw [AList.lookup_insert, Option.some.injEq]
    constructor
    · rintro rfl
      exact ⟨hmem, rfl, h.placed.ran_eq_zero hnew⟩
    · rintro ⟨hd', hname, -⟩
      exact (hn.name_injective hd' hmem hname).symm
  · rw [AList.lookup_insert_ne hcn, h.table ha n d]
    apply and_congr_left
    intro hr
    have hdc : d ≠ c := by
      rintro rfl
      exact hcn hr.1.symm
    simp [TcpServer.enlist, hdc]

/-- A connection is accepted. -/
theorem serverInv_accept (h : ServerInv s) (ha : s.life = .alive)
    (hb : s.accepted.length + 1 < 2 ^ 31) : ServerInv s.newConnection := by
  have hnew : s.newConn ∉ s.accepted := h.named.not_mem rfl
  have hnamed : Named (s.enlist s.newConn) := h.named.enlist hb
  have hd : Delivers (s.enlist s.newConn) (.connectEstablished s.newConn) s.newConnection :=
    newConnection_eq s ▸
      delivers_runInLoop (s.enlist s.newConn) 0 (f := .connectEstablished s.newConn) rfl
  generalize s.newConn = c at hnew hnamed hd
  generalize s.newConnection = t at hd
  have hacc : t.accepted = s.accepted ++ [c] := hd.same.accepted
  have hlife : t.life = .alive := hd.same.life.trans ha
  refine ⟨hnamed.same hd.same, (h.placed.enlist c).delivers hd ?_, ?_, ?_, fun hn => absurd hlife hn,
    ?_, hd.same.aborted.trans h.aborted, hd.same.dangling.trans h.dangling⟩
  · exact List.mem_append_right _ List.mem_cons_self
  · intro d hm
    rcases List.mem_append.mp (hacc ▸ hm) with hm | hm
    · exact (h.account d hm).enlist ha (ne_of_mem_of_not_mem hm hnew) hd
    · rw [List.mem_singleton.mp hm]
      exact account_new h.placed ha hnew hd
  · intro _ n d
    rw [hd.same.connections, hd.same.accepted, (hd.others _ (by simp)).1, ran_enlist]
    exact h.lookup_enlist ha hnew hnamed n d
  · intro r hr
    rw [hlife] at hr
    cases hr

/-- The connections in the map are those that no `removeConnectionInLoop` has taken out. -/
theorem mem_entries (h : ServerInv s) (ha : s.life = .alive) :
    c ∈ s.connections.entries.map Sigma.snd ↔
      c ∈ s.accepted ∧ s.ran (.removeConnectionInLoop c) = 0 := by
  have hlook : ∀ n, ⟨n, c⟩ ∈ s.connections.entries ↔
      c ∈ s.accepted ∧ c.name = n ∧ s.ran (.removeConnectionInLoop c) = 0 := fun n => by
    rw [← AList.mem_lookup_iff, Option.mem_def]
    exact h.table ha n c
  constructor
  · intro hc
    obtain ⟨⟨n, d⟩, hd, rfl⟩ := List.mem_map.mp hc
    have := (hlook n).mp hd
    exact ⟨this.1, this.2.2⟩
  · rintro ⟨hc, hr⟩
    exact List.mem_map.mpr ⟨⟨c.name, c⟩, (hlook _).mpr ⟨hc, rfl, hr⟩, rfl⟩

theorem nodup_entries (h : ServerInv s) (ha : s.life = .alive) :
    (s.connections.entries.map Sigma.snd).Nodup := by
  have hkeys : s.connections.entries.map Sigma.fst =
      (s.connections.entries.map Sigma.snd).map TcpConnectionPtr.name := by
    rw [List.map_map]
    apply List.map_congr_left
    rintro ⟨n, c⟩ hc
    exact ((h.table ha n c).mp (AList.mem_lookup_iff.mpr hc)).2.1.symm
  have hnd : (s.connections.entries.map Sigma.fst).Nodup := s.connections.nodupKeys
  rw [hkeys] at hnd
  exact List.Nodup.of_map _ hnd

theorem Named.setLife (h : Named s) (x : ServerLife) : Named { s with life := x } :=
  ⟨h.nextConnId, h.bound, h.ipPort, h.id, h.next, h.loop⟩

theorem Placed.setLife (h : Placed s) (x : ServerLife) : Placed { s with life := x } :=
  ⟨h.tasks, h.events, h.ran, h.closing⟩

/-- The destructor starts while no connection is closing. -/
theorem serverInv_destroy (h : ServerInv s) (ha : s.life = .alive)
    (hw : ∀ c, s.waiting (.removeConnectionInLoop c) = 0) (hc : ∀ l, (s.loops l).closing = none) :
    ServerInv { s with life := .destroying (s.connections.entries.map Sigma.snd) } where
  named := h.named.setLife _
  placed := h.placed.setLife _
  account c hc := by
    refine (h.account c hc).congr (fun _ _ => ⟨rfl, rfl⟩) rfl ?_
    have hmem := mem_entries h ha (c := c)
    by_cases hr : s.ran (.removeConnectionInLoop c) = 0
    · simp only [TcpServer.held, ha, if_pos hr, if_pos (hmem.mpr ⟨hc, hr⟩)]
    · simp only [TcpServer.held, ha, if_neg hr, if_neg fun hm => hr (hmem.mp hm).2]
  table hn := by cases hn
  quiet _ := ⟨hw, hc⟩
  rest r hr := by
    obtain rfl := ServerLife.destroying.inj hr
    exact ⟨nodup_entries h ha, fun c hc => ((mem_entries h ha).mp hc).1⟩
  aborted := h.aborted
  dangling := h.dangling

/-- The destructor hands a connection to its loop. -/
theorem serverInv_destroyNext (h : ServerInv s) {rest : List TcpConnectionPtr}
    (hl : s.life = .destroying rest) (hc : c ∈ rest) :
    ServerInv ({ s with life := .destroying (rest.erase c) }.runInLoop 0 c.loop
      (.connectDestroyed c)) := by
  have hd := delivers_runInLoop { s with life := .destroying (rest.erase c) } 0
    (f := .connectDestroyed c) rfl
  change Delivers _ _ (runInLoop _ 0 c.loop (.connectDestroyed c)) at hd
  generalize runInLoop _ 0 c.loop (.connectDestroyed c) = t at hd
  obtain ⟨hnd, hra⟩ := h.rest rest hl
  have hlt : t.life = .destroying (rest.erase c) := hd.same.life
  have hq := h.quiet (by simp [hl])
  refine ⟨(h.named.setLife _).same hd.same, (h.placed.setLife _).delivers hd (hra c hc), ?_, ?_,
    fun _ => ⟨?_, ?_⟩, ?_, hd.same.aborted.trans h.aborted, hd.same.dangling.trans h.dangling⟩
  · intro d hd'
    have ha := h.account d (hd.same.accepted ▸ hd')
    by_cases hdc : d = c
    · subst hdc
      have h1 := hd.others (.connectEstablished d) (by simp)
      have h2 := hd.others (.removeConnectionInLoop d) (by simp)
      have h3 := hd.account (.connectDestroyed d)
      rw [if_pos rfl] at h3
      change _ = s.ran _ + s.waiting _ + 1 at h3
      have hplace := ha.place
      have hs : s.held d = 1 := by simp [TcpServer.held, hl, hc]
      have ht : t.held d = 0 := by simp [TcpServer.held, hlt, hnd.not_mem_erase]
      refine ⟨?_, ?_, ?_, ?_, ?_⟩
      · rw [h1.1, h1.2]
        exact ha.established
      · rw [h2.1, h2.2, hd.closed]
        exact ha.closes
      · rw [hd.closed]
        exact ha.once
      · rw [hd.closed, h1.1]
        exact ha.up
      · omega
    · refine ha.congr (fun g hg => hd.others g ?_) (hd.closed d) ?_
      · rintro rfl
        exact hdc hg.symm
      · simp only [TcpServer.held, hlt, hl, List.mem_erase_of_ne hdc]
  · intro hn
    rw [hlt] at hn
    cases hn
  · intro d
    rw [(hd.others _ (by simp)).2]
    exact hq.1 d
  · intro l
    rw [hd.same.closing]
    exact hq.2 l
  · intro r hr
    rw [hlt] at hr
    obtain rfl := ServerLife.destroying.inj hr
    rw [hd.same.accepted]
    exact ⟨hnd.erase c, fun d hd => hra d (List.mem_of_mem_erase hd)⟩

/-- The destructor ends. -/
theorem serverInv_destroyed (h : ServerInv s) (hl : s.life = .destroying []) :
    ServerInv { s with life := .destroyed } where
  named := h.named.setLife _
  placed := h.placed.setLife _
  account c hc := (h.account c hc).congr (fun _ _ => ⟨rfl, rfl⟩) rfl (by simp [TcpServer.held, hl])
  table hn := by cases hn
  quiet _ := h.quiet (by simp [hl])
  rest r hr := by cases hr
  aborted := h.aborted
  dangling := h.dangling

end

/-- Where the account of the connections is kept: numbers and closes as they should be, and a
destructor that does not cut into a close. -/
def AccountOk (s : TcpServer) : Act → Prop
  | .accept => s.accepted.length + 1 < 2 ^ 31
  | .handleClose _ => s.life = .alive
  | .closeCallback l => ∀ c ∈ (s.loops l).closing,
      s.closed c = 0 ∧ 1 ≤ s.ran (.connectEstablished c)
  | .destroy => (∀ f ∈ (s.loops 0).functors.queue, f.last = true) ∧
      ∀ l ≤ s.numLoops, (s.loops l).closing = none
  | _ => True

/-- **The account is kept by every step.** -/
theorem serverInv_stepped {s t : TcpServer} {a : Act} (h : ServerInv s) (hb : Batches s.loops)
    (hok : AccountOk s a) (hst : Stepped s a t) : ServerInv t := by
  -- a step of the loop itself
  have hloop : ∀ {l : Nat} {x : ServerLoop}, x.functors.queue = (s.loops l).functors.queue →
      x.closing = (s.loops l).closing → ServerInv (s.setLoop l x) := fun hq hc =>
    h.setLoop hq (fun d hd => h.placed.closing _ d (hc ▸ hd)) fun hn => hc.trans ((h.quiet hn).2 _)
  cases hst with
  | accept ha => exact serverInv_accept h ha hok
  | handleClose c hc =>
    refine h.setLoop rfl ?_ fun hn => absurd hok hn
    intro d hd
    obtain rfl := Option.some.inj hd
    exact ⟨hc, rfl⟩
  | closeCallback l c hc =>
    obtain ⟨hcl, hup⟩ := hok c hc
    exact serverInv_closeCallback h hc hcl hup
  | doPendingFunctors l hp => exact hloop (Batched.queue_swap (hb l (by simp [hp]))) rfl
  | run l f fs hr hp =>
    obtain rfl := (h.placed.tasks l f (Batched.mem_queue_of_rest hr)).2
    cases f with
    | removeConnectionInLoop c => exact serverInv_run_remove h hr
    | connectEstablished c | connectDestroyed c => exact serverInv_run_last h hr rfl
  | iterate l hp hr => exact hloop rfl rfl
  | destroy ha =>
    refine serverInv_destroy h ha (fun c => List.count_eq_zero.mpr ?_) ?_
    · intro hm
      cases hok.1 _ hm
    · intro l
      by_contra hc
      obtain ⟨c, hc⟩ := Option.ne_none_iff_exists'.mp hc
      obtain ⟨hmem, rfl⟩ := h.placed.closing l c hc
      rw [hok.2 _ (h.named.loop c hmem)] at hc
      cases hc
  | destroyNext c rest hl hc => exact serverInv_destroyNext h hl hc
  | destroyed hl => exact serverInv_destroyed h hl
  | quit l hl => exact hloop rfl rfl

end TcpServer

end SimpleNet
