import SimpleNet.Client.TcpClient
import SimpleNet.Lib.Before

/-!
# What `stop()` stops

`stop()` writes the flag of the client before that of the connector.  `removeConnection` reads
them the other way round: it tests the client's flag, and `restart()` then sets the connector's.
When the second write of `stop()` falls in between, `restart()` undoes it, and the client goes on
(`restart_undoes_stop`).  So does `connect()`, when the second write of `stop()` falls between its
own two.  A `connect()` that is called during `stop()` also leaves the flags of the two objects
apart.

`stop_stops`: where none of this happens, no attempt follows `stopInLoop` until `connect()` is
called.
-/

namespace SimpleNet

open Function (update)

/-- Every attempt after the `stopInLoop` of a call of `stop()` comes after a call of `connect()`
that followed this call. -/
def Connector.StaysStopped (s : Connector) : Prop :=
  ∀ n e, e.attempt = true → [.stopInLoop n, e].Sublist s.trace → [.stop n, .called].Sublist s.trace

namespace TcpClient

/-- No call of `stop()` is going on when `connect()` is called, and the second write of `stop()` does
not fall between the two of `connect()` or between the test in `removeConnection` and `restart()`. -/
def StopOk (s : TcpClient) : Act → Prop
  | .connect => ∀ n < s.numStops, .stop n ∈ s.connector.trace
  | .stopConnector _ => s.Free
  | _ => True

instance (s : TcpClient) : (a : Act) → Decidable (StopOk s a)
  | .connect => inferInstanceAs (Decidable (∀ n < s.numStops, _))
  | .stopConnector _ => inferInstanceAs (Decidable s.Free)
  | .start | .disconnect | .stop | .enableRetry | .stopFrom _ | .queueFrom _ | .removeConnection | .restart
  | .connector _ => .isTrue trivial

/-- The call of `stop()` has begun, and no call of `connect()` has followed it. -/
def InForce (s : TcpClient) (n : Nat) : Prop :=
  n < s.numStops ∧ ¬ [.stop n, .called].Sublist s.connector.trace

/-- The call of `stop()` has made both of its writes. -/
def Written (s : TcpClient) (n : Nat) : Prop :=
  (∃ k, s.connector.threads k = some (.stopInLoop n)) ∨
    .stopInLoop n ∈ s.connector.functors.queue ∨ .stopInLoop n ∈ s.connector.trace

/-- The flags while a call of `stop()` is in force. -/
structure StopInv (s : TcpClient) : Prop where
  begun : ∀ n, s.Written n → n < s.numStops
  stopping : ∀ k n, s.stopping k = some n → n < s.numStops
  client : ∀ n, s.InForce n → s.connect = false
  connector : ∀ n, s.InForce n → s.Written n → s.connector.connect = false ∧ s.Free
  quiet : ∀ n, s.InForce n → .stopInLoop n ∈ s.connector.trace → s.connector.pc.passed = false
  stays : s.connector.StaysStopped

variable {s t : TcpClient} {n : Nat}

/-- What is in force was in force before, if the calls are the same. -/
theorem InForce.of_append (h : InForce t n) (hn : n < s.numStops) {l : List ConnectorEvent}
    (hl : t.connector.trace = s.connector.trace ++ l) : InForce s n :=
  ⟨hn, fun hs => h.2 (hl ▸ hs.trans (List.sublist_append_left _ _))⟩

/-- An event that is no attempt does not matter. -/
theorem staysStopped_append {c d : Connector} (h : c.StaysStopped) {l : List ConnectorEvent}
    (hl : d.trace = c.trace ++ l) (he : ∀ e ∈ l, e.attempt = false) : d.StaysStopped := by
  intro n e ha hs
  rw [hl] at hs ⊢
  rcases List.pair_sublist_append hs with hs | ⟨-, hm⟩
  · exact (h n e ha hs).trans (List.sublist_append_left _ _)
  · rw [he e hm] at ha
    cases ha

theorem stopInv_connector {c : Connector} (h : StopInv s) (hfree : s.Free)
    (hl : Connector.LoopStep s.connector c) (connection : Option Nat) :
    StopInv { s with connector := c, connection := connection } := by
  obtain ⟨l, htrace, hevents⟩ := hl.trace
  have hwritten : ∀ n, Written { s with connector := c, connection := connection } n →
      s.Written n := by
    rintro n (⟨k, hk⟩ | hq | ht)
    · exact Or.inl ⟨k, hl.threads ▸ hk⟩
    · exact Or.inr (Or.inl ((hl.queue _ hq).resolve_right (by simp)))
    · rcases List.mem_append.mp (htrace ▸ ht) with ht | ht
      · exact Or.inr (Or.inr ht)
      · rcases hevents _ ht with he | ⟨he, -⟩ | ⟨m, he, hm, -⟩
        · cases he
        · cases he
        · cases he
          exact Or.inr (Or.inl hm)
  have hforce : ∀ n, InForce { s with connector := c, connection := connection } n →
      s.InForce n := fun n hn => hn.of_append hn.1 htrace
  refine ⟨fun n hn => h.begun n (hwritten n hn), h.stopping, fun n hn => h.client n (hforce n hn),
    ?_, ?_, ?_⟩
  · intro n hn hw
    obtain ⟨hc, -⟩ := h.connector n (hforce n hn) (hwritten n hw)
    exact ⟨hl.connect.trans hc, hfree⟩
  · intro n hn ht
    by_contra hp
    obtain ⟨hc, -⟩ := h.connector n (hforce n hn) (hwritten n (Or.inr (Or.inr ht)))
    rw [hl.pc (by simpa using hp)] at hc
    cases hc
  · intro n e ha hs
    rw [htrace] at hs ⊢
    rcases List.pair_sublist_append hs with hs | ⟨hstop, hm⟩
    · exact (h.stays n e ha hs).trans (List.sublist_append_left _ _)
    · -- a test has been passed, so `stopInLoop` came in an earlier step and is not in force
      have hp : s.connector.pc.passed = true := by
        rcases hevents e hm with he | ⟨-, hp⟩ | ⟨m, rfl, -⟩
        · rw [ConnectorEvent.attempt_of_ending he] at ha
          cases ha
        · exact hp
        · cases ha
      have hstop : .stopInLoop n ∈ s.connector.trace := by
        apply (List.mem_append.mp hstop).resolve_right
        intro hin
        rcases hevents _ hin with he | ⟨he, -⟩ | ⟨m, -, -, hidle⟩
        · cases he
        · cases he
        · rw [hidle] at hp
          cases hp
      by_contra hno
      have hforce : s.InForce n := ⟨h.begun n (Or.inr (Or.inr hstop)), fun hs =>
        hno (hs.trans (List.sublist_append_left _ _))⟩
      rw [h.quiet n hforce hstop] at hp
      cases hp

/-- Only the queued call is new in the queue. -/
theorem mem_queue_stopInLoop {c d : Connector} {m : Nat}
    (hq : d.functors = c.functors.push (.stopInLoop n))
    (hm : .stopInLoop m ∈ d.functors.queue) : .stopInLoop m ∈ c.functors.queue ∨ m = n := by
  rw [hq, Batched.queue_push, List.mem_append, List.mem_singleton] at hm
  exact hm.imp_right ConnectorTask.stopInLoop.inj

theorem stopInv_connect (h : StopInv s) (hok : ∀ n < s.numStops, .stop n ∈ s.connector.trace) :
    StopInv s.callConnect := by
  -- every call of `stop()` has returned
  have hnone : ∀ n, ¬ InForce s.callConnect n := by
    rintro n ⟨hn, hs⟩
    exact hs (List.pair_sublist_concat.mpr (Or.inr ⟨hok n hn, rfl⟩))
  refine ⟨?_, h.stopping, fun n hn => absurd hn (hnone n), fun n hn => absurd hn (hnone n),
    fun n hn => absurd hn (hnone n), staysStopped_append h.stays rfl (by simp [ConnectorEvent.attempt])⟩
  intro n hn
  apply h.begun n
  simpa [Written, callConnect] using hn

/-- The flag of the connector is set by `start()` or by `restart()`, which a call of `stop()` in force
whose writes have both been made would forbid. -/
theorem stopInv_setConnect (h : StopInv s) (hbusy : ¬ s.Free) {c : Connector}
    (hthreads : c.threads = s.connector.threads) (hq : c.functors = s.connector.functors)
    (htrace : c.trace = s.connector.trace ∨ c.trace = s.connector.trace ++ [.start])
    {x y : Bool} : StopInv { s with connector := c, connecting := x, restarting := y } := by
  obtain ⟨l, hl, hstart⟩ : ∃ l, c.trace = s.connector.trace ++ l ∧ ∀ e ∈ l, e = .start := by
    rcases htrace with ht | ht
    · exact ⟨[], by rw [ht, List.append_nil], by simp⟩
    · exact ⟨_, ht, by simp⟩
  have hmem : ∀ n, .stopInLoop n ∈ c.trace → .stopInLoop n ∈ s.connector.trace := by
    intro n hn
    refine (List.mem_append.mp (hl ▸ hn)).resolve_right fun hin => ?_
    cases hstart _ hin
  have hwritten : ∀ n, Written { s with connector := c, connecting := x, restarting := y } n →
      s.Written n := by
    rintro n (⟨k, hk⟩ | hm | hm)
    · exact Or.inl ⟨k, hthreads ▸ hk⟩
    · exact Or.inr (Or.inl (hq ▸ hm))
    · exact Or.inr (Or.inr (hmem n hm))
  have hforce : ∀ n, InForce { s with connector := c, connecting := x, restarting := y } n →
      s.InForce n := fun n hn => hn.of_append hn.1 hl
  have hno : ∀ n, s.InForce n → ¬ s.Written n := fun n hn hw => hbusy (h.connector n hn hw).2
  refine ⟨fun n hw => h.begun n (hwritten n hw), h.stopping, fun n hn => h.client n (hforce n hn),
    fun n hn hw => absurd (hwritten n hw) (hno n (hforce n hn)),
    fun n hn ht => absurd (hwritten n (Or.inr (Or.inr ht))) (hno n (hforce n hn)),
    staysStopped_append h.stays hl fun e he => ?_⟩
  rw [hstart e he]
  rfl

theorem stopInv_stop (h : StopInv s) (hfree : s.Free) : StopInv { s with
    connect := false
    connector := (s.connector.stop s.numStops).emit (.stop s.numStops)
    numStops := s.numStops + 1 } := by
  have htrace : ∀ n, .stopInLoop n ∈ s.connector.trace ++ [.stop s.numStops] →
      .stopInLoop n ∈ s.connector.trace := by simp
  refine ⟨?_, fun k n hk => Nat.lt_succ_of_lt (h.stopping k n hk), fun _ _ => rfl,
    fun _ _ _ => ⟨rfl, hfree⟩, ?_, staysStopped_append h.stays rfl (by simp [ConnectorEvent.attempt])⟩
  · rintro n (hk | hq | ht)
    · exact Nat.lt_succ_of_lt (h.begun n (Or.inl hk))
    · rcases mem_queue_stopInLoop rfl hq with hq | rfl
      · exact Nat.lt_succ_of_lt (h.begun n (Or.inr (Or.inl hq)))
      · exact Nat.lt_succ_self _
    · exact Nat.lt_succ_of_lt (h.begun n (Or.inr (Or.inr (htrace n ht))))
  · intro n hf ht
    have hn := h.begun n (Or.inr (Or.inr (htrace n ht)))
    exact h.quiet n (hf.of_append hn rfl) (htrace n ht)

theorem stopInv_stopFrom (h : StopInv s) (k : Nat) : StopInv { s with
    connect := false
    stopping := update s.stopping k (some s.numStops)
    numStops := s.numStops + 1 } := by
  refine ⟨fun n hn => Nat.lt_succ_of_lt (h.begun n hn), ?_, fun _ _ => rfl,
    fun n hf hw => h.connector n ⟨h.begun n hw, hf.2⟩ hw,
    fun n hf ht => h.quiet n ⟨h.begun n (Or.inr (Or.inr ht)), hf.2⟩ ht, h.stays⟩
  intro j n hj
  rcases update_eq_some hj with hn | hj
  · obtain rfl := Option.some.inj hn
    exact Nat.lt_succ_self _
  · exact Nat.lt_succ_of_lt (h.stopping j n hj)

theorem stopInv_stopConnector {k : Nat} (h : StopInv s) (hfree : s.Free)
    (hk : s.stopping k = some n) : StopInv { s with
      connector := { s.connector with
        connect := false
        threads := update s.connector.threads k (some (.stopInLoop n)) }
      stopping := update s.stopping k none } := by
  refine ⟨?_, ?_, h.client, fun m _ _ => ⟨rfl, hfree⟩, h.quiet, h.stays⟩
  · rintro m (⟨j, hj⟩ | hm)
    · rcases update_eq_some hj with hn | hj
      · cases hn
        exact h.stopping k n hk
      · exact h.begun m (Or.inl ⟨j, hj⟩)
    · exact h.begun m (Or.inr hm)
  · intro j m hj
    exact h.stopping j m ((update_eq_some hj).resolve_left (by simp))

theorem stopInv_queueFrom {k : Nat} (h : StopInv s)
    (hk : s.connector.threads k = some (.stopInLoop n)) : StopInv { s with
      connector := { s.connector.queueInLoop (.stopInLoop n) with
        threads := update s.connector.threads k none }.emit (.stop n) } := by
  have htrace : ∀ m, .stopInLoop m ∈ s.connector.trace ++ [.stop n] →
      .stopInLoop m ∈ s.connector.trace := by simp
  have hwritten : ∀ m, Written { s with
      connector := { s.connector.queueInLoop (.stopInLoop n) with
        threads := update s.connector.threads k none }.emit (.stop n) } m → s.Written m := by
    rintro m (⟨j, hj⟩ | hq | ht)
    · exact Or.inl ⟨j, (update_eq_some hj).resolve_left (by simp)⟩
    · rcases mem_queue_stopInLoop rfl hq with hq | rfl
      · exact Or.inr (Or.inl hq)
      · exact Or.inl ⟨k, hk⟩
    · exact Or.inr (Or.inr (htrace m ht))
  have hforce : ∀ m, InForce { s with
      connector := { s.connector.queueInLoop (.stopInLoop n) with
        threads := update s.connector.threads k none }.emit (.stop n) } m → s.InForce m := by
    intro m hf
    exact hf.of_append hf.1 rfl
  exact ⟨fun m hw => h.begun m (hwritten m hw), h.stopping, fun m hf => h.client m (hforce m hf),
    fun m hf hw => h.connector m (hforce m hf) (hwritten m hw),
    fun m hf ht => h.quiet m (hforce m hf) (htrace m ht),
    staysStopped_append h.stays rfl (by simp [ConnectorEvent.attempt])⟩

theorem stopInv_removeConnection (h : StopInv s) : StopInv s.removeConnection := by
  refine ⟨h.begun, h.stopping, h.client, ?_, h.quiet, h.stays⟩
  intro n hf hw
  obtain ⟨hc, hfree⟩ := h.connector n hf hw
  refine ⟨hc, hfree.1, ?_⟩
  show (s.retry && s.connect) = false
  rw [h.client n hf, Bool.and_false]

theorem stopInv_step {a : Act} (h : StopInv s) (hok : StopOk s a) (hst : Stepped s a t) :
    StopInv t := by
  cases hst with
  | connect hpc hfree hf => exact stopInv_connect h hok
  | start hcn hpc hf =>
    refine stopInv_setConnect h (fun hfree => ?_) ?_ ?_ (Or.inr ?_)
    · rw [hfree.1] at hcn
      cases hcn
    all_goals simp [Connector.start]
  | disconnect => exact ⟨h.begun, h.stopping, fun _ _ => rfl, h.connector, h.quiet, h.stays⟩
  | stop hfree => exact stopInv_stop h hfree
  | enableRetry => exact ⟨h.begun, h.stopping, h.client, h.connector, h.quiet, h.stays⟩
  | stopFrom k => exact stopInv_stopFrom h k
  | stopConnector k n hk => exact stopInv_stopConnector h hok hk
  | queueFrom k n hk => exact stopInv_queueFrom h hk
  | removeConnection hpc hfree hc => exact stopInv_removeConnection h
  | restart hr hpc hf =>
    refine stopInv_setConnect h (fun hfree => ?_) ?_ ?_ (Or.inl ?_)
    · rw [hfree.2] at hr
      cases hr
    all_goals simp [Connector.restart]
  | connector a c connection ha hfree hc =>
    exact stopInv_connector h hfree (Connector.loopStep_stepped ha (Connector.step_stepped hc).2) connection

/-- **`stop()` stops** in every run whose steps are `StopOk`. -/
theorem stop_stops {as : List Act}
    (hrun : Steps.run (Steps.guarded StopOk step) init as = some t) : t.connector.StaysStopped := by
  have hinv : StopInv t := Steps.run_invariant (I := StopInv) (fun s a u h hs => by
    obtain ⟨hok, hs⟩ := Steps.guarded_eq_some.mp hs
    exact stopInv_step h hok (step_stepped hs)) ?_ hrun
  · exact hinv.stays
  · constructor <;> simp [init, Connector.init, Written, InForce, Batched.empty, Batched.queue,
      Connector.StaysStopped]

/-- `connects`, and the end of the channel. -/
def connected : List Act := connects ++ [.connector .doPendingFunctors, .connector .runFunctor]

/-- Another thread calls `stop()` while a lost connection is made again; later the user calls
`connect()`. -/
def stopWhileConnecting : List Act :=
  [.enableRetry, .connect, .start] ++ connected ++
    [.removeConnection, .restart, .connector (.resume .none), .connector (.resume .EINPROGRESS),
      .stopFrom 1, .stopConnector 1, .queueFrom 1, .connector .doPendingFunctors,
      .connector .runFunctor, .connector (.resume .none), .connector .doPendingFunctors,
      .connector .runFunctor, .connect, .start] ++ connected

theorem stop_stops_whileConnecting :
    ∃ t, Steps.run (Steps.guarded StopOk step) init stopWhileConnecting = some t ∧
      .stopInLoop 0 ∈ t.connector.trace ∧ t.connection = some 2 ∧ t.connector.StaysStopped := by
  have hobs : (Steps.run (Steps.guarded StopOk step) init stopWhileConnecting).any (fun t => decide
      (.stopInLoop 0 ∈ t.connector.trace ∧ t.connection = some 2)) = true := by decide
  obtain ⟨t, ht, hobs⟩ := (Option.any_eq_true _ _).mp hobs
  obtain ⟨h1, h2⟩ := of_decide_eq_true hobs
  exact ⟨t, ht, h1, h2, stop_stops ht⟩

/-- `stop()` on another thread comes between the test in `removeConnection` and `restart()`. -/
def stopBeforeRestart : List Act :=
  [.enableRetry, .connect, .start] ++ connected ++
    [.removeConnection, .stopFrom 1, .stopConnector 1, .queueFrom 1, .restart,
      .connector (.resume .none), .connector (.resume .EINPROGRESS), .connector .doPendingFunctors,
      .connector .runFunctor, .connector (.resume .none), .connector (.resume .none)]

/-- `connect()` comes between the two writes of `stop()` on another thread; later the connection
is lost. -/
def connectDuringStop : List Act :=
  [.enableRetry, .stopFrom 1, .connect, .start] ++ connects ++
    [.stopConnector 1, .queueFrom 1, .connector .doPendingFunctors, .connector .runFunctor,
      .connector .runFunctor, .removeConnection, .restart, .connector (.resume .none),
      .connector (.resume .EINPROGRESS)]

/-- `stop()` on another thread comes between the two writes of `connect()`. -/
def stopDuringConnect : List Act :=
  [.connect, .stopFrom 1, .stopConnector 1, .queueFrom 1, .start, .connector (.resume .none),
    .connector (.resume .EINPROGRESS), .connector .doPendingFunctors, .connector .runFunctor,
    .connector (.resume .none), .connector (.resume .none)]

/-- After `stop()`, its `stopInLoop` schedules a retry, or a lost connection is made again. -/
theorem restart_undoes_stop :
    (∃ t, Steps.run step init stopBeforeRestart = some t ∧ ¬ t.connector.StaysStopped) ∧
      (∃ t, Steps.run step init connectDuringStop = some t ∧ ¬ t.connector.StaysStopped) ∧
      ∃ t, Steps.run step init stopDuringConnect = some t ∧ ¬ t.connector.StaysStopped := by
  have hobs : ∀ as ∈ [stopBeforeRestart, connectDuringStop, stopDuringConnect],
      (Steps.run step init as).any (fun t => decide (∃ e ∈ t.connector.trace, e.attempt = true ∧
        [.stopInLoop 0, e].Sublist t.connector.trace ∧
          ¬ [.stop 0, .called].Sublist t.connector.trace)) = true := by
    decide
  have hundone : ∀ as ∈ [stopBeforeRestart, connectDuringStop, stopDuringConnect],
      ∃ t, Steps.run step init as = some t ∧ ¬ t.connector.StaysStopped := by
    intro as has
    obtain ⟨t, ht, hobs⟩ := (Option.any_eq_true _ _).mp (hobs as has)
    obtain ⟨e, -, ha, he, hno⟩ := of_decide_eq_true hobs
    exact ⟨t, ht, fun h => hno (h 0 e ha he)⟩
  refine ⟨hundone _ ?_, hundone _ ?_, hundone _ ?_⟩
  all_goals simp only [List.mem_cons, true_or, or_true]

end TcpClient

end SimpleNet
