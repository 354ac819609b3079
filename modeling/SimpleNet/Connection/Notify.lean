import SimpleNet.Connection.Output

/-!
# The two notifications about the output

Sequences of calls of `sendInLoop` and `handleWrite` (`outputStep`), with the outcome of each
write.

`high_water_level`: the high-water callback is level triggered.  `sendInLoop` tests the length after
the message, and not that it was below the mark before it, so each message of which something is left
in a buffer at the mark or above queues a callback, also where the buffer was there before
(`high_water_again`).  `high_water_edge_iff`: there is one for each time the buffer comes up to the
mark if and only if nothing is sent while it is there.

`write_complete_exact`: a step queues the write-complete callback if and only if it writes
something and all that was accepted has then been written, whether it is the direct write of
`sendInLoop` that ends there or the drain of `handleWrite`.
-/

namespace SimpleNet

namespace Effect

/-- The length that a queued high-water callback carries. -/
def mark : Effect → Option Nat
  | .queued (.highWaterMark len) => some len
  | _ => none

end Effect

/-- The high-water callbacks queued in a trace, each with its length. -/
def marks (es : List Effect) : List Nat := es.filterMap Effect.mark

/-- How many write-complete callbacks are queued in a trace. -/
def completes (es : List Effect) : Nat := es.count (.queued .writeComplete)

@[simp] theorem marks_append (es fs : List Effect) : marks (es ++ fs) = marks es ++ marks fs :=
  List.filterMap_append

@[simp] theorem completes_append (es fs : List Effect) :
    completes (es ++ fs) = completes es + completes fs :=
  List.count_append

inductive OutputAct
  | sendInLoop (m : Message) (w : WriteResult)
  | handleWrite (w : WriteResult)

/-- The message, if there is one, is not empty. -/
def OutputAct.Payload : OutputAct → Prop
  | .sendInLoop m _ => m.bytes ≠ []
  | .handleWrite _ => True

namespace Conn

variable {ι β : Type} [DecidableEq ι] [Fifo β UInt8]

def outputStep (s : Conn ι β) : OutputAct → Option (Conn ι β)
  | .sendInLoop m w => (s.sendInLoop m w).toOption
  | .handleWrite w => (s.handleWrite w).toOption

/-- What has happened from `s` to `t`. -/
def since (s t : Conn ι β) : List Effect := t.trace.drop s.trace.length

omit [DecidableEq ι] [Fifo β UInt8] in
theorem since_eq {s t : Conn ι β} {es : List Effect} (h : t.trace = s.trace ++ es) :
    s.since t = es := by
  rw [since, h, List.drop_left]

/-- What a step of the output does, case by case. -/
inductive Outputs (s : Conn ι β) : OutputAct → Conn ι β → Prop
  | sends {m w t} (h : Sends s m w t) : Outputs s (.sendInLoop m w) t
  | drains {w t} (h : Drains s w t) : Outputs s (.handleWrite w) t

theorem outputStep_outputs {s t : Conn ι β} {a : OutputAct} (hA : s.toReactor.Agree)
    (hs : s.state ≠ .kDisconnected) (h : outputStep s a = some t) : Outputs s a t := by
  cases a with
  | sendInLoop m w => exact .sends (sendInLoop_sends hA hs (Steps.toOption_eq_some.mp h))
  | handleWrite w => exact .drains (handleWrite_drains hA (Steps.toOption_eq_some.mp h))

omit [DecidableEq ι] in
theorem Outputs.settings {s t : Conn ι β} {a : OutputAct} (h : Outputs s a t) :
    t.settings = s.settings := by
  cases h with
  | sends h =>
    cases h with
    | all hd hn =>
      unfold completed
      split <;> rfl
    | part hd hn ht => exact ht.settings
    | soft hd he hm ht => exact ht.settings
    | fault hd he => rfl
    | behind hd hm ht => exact ht.settings
    | empty hd hm => rfl
  | drains h =>
    cases h with
    | idle => rfl
    | part hw hk hn => rfl
    | all hpos hk hw hb ht hs => exact hs

omit [DecidableEq ι] [Fifo β UInt8] in
/-- The trace of a direct write that takes all. -/
theorem trace_all (s : Conn ι β) (m : Message) (w : WriteResult) :
    ((s.emit (.sendInLoop m s.state (some w))).emit (.write m.bytes)).completed.trace =
      s.trace ++ ([.sendInLoop m s.state (some w), .write m.bytes] ++
        if s.writeCompleteCallback then [.queued .writeComplete] else []) := by
  rw [completed_trace, ← List.append_assoc]
  exact congrArg (· ++ _) (List.append_assoc _ _ _)

/-- What the sequences keep: the poller agrees, and the settings do not change. -/
structure Fixed (st : StateE × Nat × Bool × Bool) (s : Conn ι β) : Prop where
  agree : s.toReactor.Agree
  settings : s.settings = st

omit [DecidableEq ι] [Fifo β UInt8] in
theorem Fixed.state {st : StateE × Nat × Bool × Bool} {s : Conn ι β} (h : Fixed st s) :
    s.state = st.1 := congrArg Prod.fst h.settings

omit [DecidableEq ι] [Fifo β UInt8] in
theorem Fixed.mark {st : StateE × Nat × Bool × Bool} {s : Conn ι β} (h : Fixed st s) :
    s.highWaterMark = st.2.1 := congrArg (·.2.1) h.settings

omit [DecidableEq ι] [Fifo β UInt8] in
theorem Fixed.callback {st : StateE × Nat × Bool × Bool} {s : Conn ι β} (h : Fixed st s) :
    s.highWaterMarkCallback = st.2.2.1 := congrArg (·.2.2.1) h.settings

omit [DecidableEq ι] [Fifo β UInt8] in
theorem Fixed.complete {st : StateE × Nat × Bool × Bool} {s : Conn ι β} (h : Fixed st s) :
    s.writeCompleteCallback = st.2.2.2 := congrArg (·.2.2.2) h.settings

theorem fixed_outputStep {st : StateE × Nat × Bool × Bool} (hst : st.1 ≠ .kDisconnected)
    {s : Conn ι β} (h : Fixed st s) (a : OutputAct) :
    ∃ t, outputStep s a = some t ∧ Fixed st t ∧ Outputs s a t ∧ DataStep s t := by
  have hs : s.state ≠ .kDisconnected := h.state ▸ hst
  have hdone : ∃ t, outputStep s a = some t ∧ DataStep s t := by
    cases a with
    | sendInLoop m w =>
      obtain ⟨t, ht, hd⟩ := dataStep_sendInLoop h.agree m w
      exact ⟨t, by rw [outputStep, ht]; rfl, hd⟩
    | handleWrite w =>
      obtain ⟨t, ht, hd⟩ := dataStep_handleWrite h.agree w
      exact ⟨t, by rw [outputStep, ht]; rfl, hd⟩
  obtain ⟨t, ht, hd⟩ := hdone
  have ho := outputStep_outputs h.agree hs ht
  exact ⟨t, ht, ⟨hd.agree h.agree, ho.settings.trans h.settings⟩, ho, hd⟩

/-! ### The high-water mark -/

/-- Something of a message is left in the buffer, which is then at the mark or above. -/
def Fills (s t : Conn ι β) : OutputAct → Prop
  | .sendInLoop _ _ => Fifo.readable s.outputBuffer < Fifo.readable t.outputBuffer ∧
    t.highWaterMark ≤ Fifo.readable t.outputBuffer
  | .handleWrite _ => False

instance (s t : Conn ι β) : (a : OutputAct) → Decidable (Fills s t a)
  | .sendInLoop _ _ => inferInstanceAs (Decidable (_ ∧ _))
  | .handleWrite _ => .isFalse id

/-- The high-water callbacks of the steps from `s` to `t` are level triggered. -/
structure LevelTriggered (s : Conn ι β) (as : List OutputAct) (t : Conn ι β) : Prop where
  /-- one for each message that leaves something in a buffer at the mark or above -/
  count : (marks t.trace).length = (marks s.trace).length +
    (Steps.trail outputStep s as).countP fun x => decide (Fills x.1 x.2.2 x.2.1)
  /-- it carries the length right after its step, and no other step queues one -/
  carries : ∀ x ∈ Steps.trail outputStep s as, marks (x.1.since x.2.2) =
    if Fills x.1 x.2.2 x.2.1 then [Fifo.readable x.2.2.outputBuffer] else []

/-- The buffer comes up to the mark. -/
def Crosses (s t : Conn ι β) : Prop :=
  Fifo.readable s.outputBuffer < s.highWaterMark ∧ t.highWaterMark ≤ Fifo.readable t.outputBuffer

instance (s t : Conn ι β) : Decidable (Crosses s t) := inferInstanceAs (Decidable (_ ∧ _))

/-- The high-water callbacks of the steps from `s` to `t` are edge triggered. -/
structure EdgeTriggered (s : Conn ι β) (as : List OutputAct) (t : Conn ι β) : Prop where
  /-- one for each time the buffer comes up to the mark -/
  count : (marks t.trace).length = (marks s.trace).length +
    (Steps.trail outputStep s as).countP fun x => decide (Crosses x.1 x.2.2)
  /-- each carries the length right after its step -/
  carries : ∀ x ∈ Steps.trail outputStep s as, ∀ len ∈ marks (x.1.since x.2.2),
    len = Fifo.readable x.2.2.outputBuffer
  /-- none while the buffer is at the mark or above -/
  quiet : ∀ x ∈ Steps.trail outputStep s as,
    x.1.highWaterMark ≤ Fifo.readable x.1.outputBuffer → marks (x.1.since x.2.2) = []

/-- What is sent finds the buffer below the mark. -/
def BelowMark (s : Conn ι β) : OutputAct → Prop
  | .sendInLoop m _ => m.bytes ≠ [] → Fifo.readable s.outputBuffer < s.highWaterMark
  | .handleWrite _ => True

/-- A step leaves something of a message in the buffer, or adds nothing to it. -/
inductive Buffered (s t : Conn ι β) : OutputAct → Prop
  | more {m w} (hm : m.bytes ≠ [])
    (hlt : Fifo.readable s.outputBuffer < Fifo.readable t.outputBuffer)
    (hmarks : marks (s.since t) = if s.highWaterMark ≤ Fifo.readable t.outputBuffer then
      [Fifo.readable t.outputBuffer] else []) : Buffered s t (.sendInLoop m w)
  | none {a} (hle : Fifo.readable t.outputBuffer ≤ Fifo.readable s.outputBuffer)
    (hbelow : BelowMark s a) (hmarks : marks (s.since t) = []) : Buffered s t a

omit [DecidableEq ι] in
theorem Buffers.marks_marked {s t : Conn ι β} {rest : List UInt8} (h : Buffers s rest t)
    (hcb : s.highWaterMarkCallback = true) : marks (s.marked rest) =
      if s.highWaterMark ≤ Fifo.readable t.outputBuffer then [Fifo.readable t.outputBuffer]
      else [] := by
  have hlen : Fifo.readable t.outputBuffer = Fifo.readable s.outputBuffer + rest.length := by
    rw [Fifo.readable_eq, h.peek, List.length_append, ← Fifo.readable_eq]
  rw [marked, hcb, hlen]
  by_cases hle : s.highWaterMark ≤ Fifo.readable s.outputBuffer + rest.length
  · rw [if_pos ⟨hle, rfl⟩, if_pos hle]
    rfl
  · rw [if_neg fun h => hle h.1, if_neg hle]
    rfl

omit [DecidableEq ι] in
/-- `rest` is buffered after the effects `es`. -/
theorem Buffers.buffered {s u t : Conn ι β} {m : Message} {w : WriteResult} {rest : List UInt8}
    {es : List Effect} (h : Buffers u rest t) (hr : rest ≠ []) (hm : m.bytes ≠ [])
    (hu : u.trace = s.trace ++ es) (hb : u.outputBuffer = s.outputBuffer)
    (hset : u.settings = s.settings) (hes : marks es = [])
    (hcb : s.highWaterMarkCallback = true) : Buffered s t (.sendInLoop m w) := by
  have hmark : u.highWaterMark = s.highWaterMark := congrArg (·.2.1) hset
  have hucb : u.highWaterMarkCallback = true :=
    (congrArg (·.2.2.1) hset : u.highWaterMarkCallback = _).trans hcb
  have hlen : Fifo.readable t.outputBuffer = Fifo.readable s.outputBuffer + rest.length := by
    rw [Fifo.readable_eq, h.peek, List.length_append, ← Fifo.readable_eq, hb]
  have hpos := List.length_pos_iff.mpr hr
  have ht : t.trace = s.trace ++ (es ++ u.marked rest) := by
    rw [h.trace, hu, List.append_assoc]
  refine .more hm (by omega) ?_
  rw [since_eq ht, marks_append, hes, List.nil_append, h.marks_marked hucb, hmark]

omit [DecidableEq ι] in
theorem Outputs.buffered {s t : Conn ι β} {a : OutputAct} (h : Outputs s a t)
    (hmark : 0 < s.highWaterMark) (hcb : s.highWaterMarkCallback = true) : Buffered s t a := by
  cases h with
  | sends h =>
    cases h with
    | all hd hn =>
      refine .none (by simp) (fun _ => hd.2 ▸ hmark) ?_
      rw [since_eq (trace_all _ _ _)]
      split <;> rfl
    | @part n _ hd hn ht =>
      refine ht.buffered ?_ ?_ (List.append_assoc _ _ _) rfl rfl rfl hcb
      · intro hnil
        have := congrArg List.length hnil
        rw [List.length_drop, List.length_nil] at this
        omega
      · intro hnil
        rw [hnil] at hn
        cases hn
    | soft hd he hm ht => exact ht.buffered hm hm rfl rfl rfl rfl hcb
    | fault hd he => exact .none (Nat.le_refl _) (fun _ => hd.2 ▸ hmark) (by rw [since_eq rfl]; rfl)
    | behind hd hm ht => exact ht.buffered hm hm rfl rfl rfl rfl hcb
    | empty hd hm => exact .none (Nat.le_refl _) (fun h => absurd hm h) (by rw [since_eq rfl]; rfl)
  | drains h =>
    cases h with
    | idle =>
      refine .none (Nat.le_refl _) trivial ?_
      rw [since_eq (List.append_nil _).symm]
      rfl
    | @part k hw hk hn =>
      refine .none ?_ trivial (by rw [since_eq rfl]; rfl)
      show Fifo.readable (Fifo.retrieve s.outputBuffer k) ≤ _
      rw [Fifo.readable_retrieve (Nat.le_of_lt hn)]
      exact Nat.sub_le _ _
    | all hpos hk hw hb ht hs =>
      refine .none (by rw [hb]; exact Nat.zero_le _) trivial ?_
      rw [since_eq ht, finished]
      split <;> split <;> rfl

omit [DecidableEq ι] in
/-- A step queues a callback when it fills the buffer. -/
theorem Buffered.marks_fills {s t : Conn ι β} {a : OutputAct} (h : Buffered s t a)
    (hset : t.highWaterMark = s.highWaterMark) : marks (s.since t) =
      if Fills s t a then [Fifo.readable t.outputBuffer] else [] := by
  cases h with
  | more hm hlt hmarks =>
    rw [hmarks]
    refine if_congr ?_ rfl rfl
    rw [Fills, hset]
    exact ⟨fun hle => ⟨hlt, hle⟩, And.right⟩
  | none hle hbelow hmarks =>
    rw [hmarks, if_neg]
    intro hf
    cases a with
    | sendInLoop m w => exact Nat.not_lt_of_le hle hf.1
    | handleWrite w => exact hf

omit [DecidableEq ι] in
/-- That is when the buffer comes up to the mark, and when a message finds it there. -/
theorem Buffered.crosses_or_iff {s t : Conn ι β} {a : OutputAct} (h : Buffered s t a)
    (hset : t.highWaterMark = s.highWaterMark) : (Crosses s t ∨ ¬ BelowMark s a) ↔ Fills s t a := by
  cases h with
  | more hm hlt hmarks =>
    simp only [Crosses, BelowMark, Fills, hset, hm, ne_eq, not_false_eq_true, forall_const]
    omega
  | none hle hbelow hmarks =>
    constructor
    · rintro (⟨h1, h2⟩ | h1)
      · rw [hset] at h2
        omega
      · exact absurd hbelow h1
    · intro hf
      cases a with
      | sendInLoop m w => exact absurd hf.1 (Nat.not_lt_of_le hle)
      | handleWrite w => exact hf.elim

/-- The steps of a sequence. -/
theorem outputs_trail {s : Conn ι β} (hA : s.toReactor.Agree) (hs : s.state ≠ .kDisconnected)
    {as : List OutputAct} : ∀ x ∈ Steps.trail outputStep s as, Fixed s.settings x.1 ∧
      Outputs x.1 x.2.1 x.2.2 ∧ x.2.2.trace = x.1.trace ++ x.1.since x.2.2 := by
  intro x hx
  obtain ⟨hfix, hstep⟩ := Steps.mem_trail (I := Fixed s.settings) (by
    intro u a v hu hv
    obtain ⟨v', hv', hfix, -⟩ := fixed_outputStep hs hu a
    exact Option.some.inj (hv.symm.trans hv') ▸ hfix) ⟨hA, rfl⟩ x hx
  obtain ⟨t, ht, -, ho, hd⟩ := fixed_outputStep hs hfix x.2.1
  obtain rfl := Option.some.inj (hstep.symm.trans ht)
  obtain ⟨es, hes, -⟩ := hd.trace
  exact ⟨hfix, ho, by rw [since_eq hes, hes]⟩

theorem exists_run_output {s : Conn ι β} (hA : s.toReactor.Agree) (hs : s.state ≠ .kDisconnected)
    (as : List OutputAct) : ∃ t, Steps.run outputStep s as = some t := by
  obtain ⟨t, ht, -⟩ := Steps.exists_run (I := Fixed s.settings) (by
    intro u a hu
    obtain ⟨v, hv, hfix, -⟩ := fixed_outputStep hs hu a
    exact ⟨v, hv, hfix⟩) as ⟨hA, rfl⟩
  exact ⟨t, ht⟩

/-- The steps of a sequence, with what each leaves in the buffer. -/
theorem buffered_trail {s : Conn ι β} (hA : s.toReactor.Agree) (hs : s.state ≠ .kDisconnected)
    (hcb : s.highWaterMarkCallback = true) (hmark : 0 < s.highWaterMark) {as : List OutputAct} :
    ∀ x ∈ Steps.trail outputStep s as, x.2.2.highWaterMark = x.1.highWaterMark ∧
      Buffered x.1 x.2.2 x.2.1 := by
  intro x hx
  obtain ⟨hfix, ho, -⟩ := outputs_trail hA hs x hx
  exact ⟨congrArg (·.2.1) ho.settings, ho.buffered (hfix.mark ▸ hmark) (hfix.callback.trans hcb)⟩

/-- If each step of a sequence queues what `P` says, so does the sequence. -/
theorem length_marks {s t : Conn ι β} (hA : s.toReactor.Agree) (hs : s.state ≠ .kDisconnected)
    {as : List OutputAct} (hrun : Steps.run outputStep s as = some t)
    {P : Conn ι β × OutputAct × Conn ι β → Prop} [DecidablePred P]
    (hP : ∀ x ∈ Steps.trail outputStep s as, marks (x.1.since x.2.2) =
      if P x then [Fifo.readable x.2.2.outputBuffer] else []) :
    (marks t.trace).length = (marks s.trace).length +
      (Steps.trail outputStep s as).countP fun x => decide (P x) := by
  refine Steps.count_trail (μ := fun s => (marks s.trace).length) ?_ hrun
  intro x hx
  obtain ⟨-, -, htrace⟩ := outputs_trail hA hs x hx
  rw [htrace, marks_append, List.length_append, hP x hx]
  split
  · next hc => simp [hc]
  · next hc => simp [hc]

/-- **The high-water callback is level triggered.** -/
theorem high_water_level {r : Reactor ι} {c : ι} (hr : Fresh r c) (mark : Nat) (hw wc : Bool)
    {bs : List Act} {s : Conn ι β} (hrun : Steps.run step (init r c mark hw wc) bs = some s)
    (hs : s.state = .kConnected) (hcb : s.highWaterMarkCallback = true)
    (hmark : 0 < s.highWaterMark) (as : List OutputAct) :
    ∃ t, Steps.run outputStep s as = some t ∧ LevelTriggered s as t := by
  have hA := (base_run hr mark hw wc hrun).agree
  have hst : s.state ≠ .kDisconnected := by simp [hs]
  obtain ⟨t, ht⟩ := exists_run_output hA hst as
  have hfills : ∀ x ∈ Steps.trail outputStep s as, marks (x.1.since x.2.2) =
      if Fills x.1 x.2.2 x.2.1 then [Fifo.readable x.2.2.outputBuffer] else [] := by
    intro x hx
    obtain ⟨hset, hbuf⟩ := buffered_trail hA hst hcb hmark x hx
    exact hbuf.marks_fills hset
  exact ⟨t, ht, length_marks hA hst ht (P := fun x => Fills x.1 x.2.2 x.2.1) hfills, hfills⟩

/-- A connection with a mark of two bytes. -/
def marked2 : Conn Unit (List UInt8) := init (Reactor.fresh fun _ => 5) () 2 true true

/-- A message comes up to the mark, and another one follows; part of them is drained. -/
def sentAgain : List OutputAct :=
  [.sendInLoop ⟨0, [1, 2, 3]⟩ (.wrote 1), .sendInLoop ⟨1, [4]⟩ (.wrote 0), .handleWrite (.wrote 1)]

theorem high_water_level_sentAgain : ∃ s t, Steps.run step marked2 established = some s ∧
    Steps.run outputStep s sentAgain = some t ∧ marks t.trace = [2, 3] ∧
    LevelTriggered s sentAgain t := by
  have hobs : (Steps.run step marked2 established).any (fun s => decide (s.state = .kConnected ∧
      s.highWaterMarkCallback = true ∧ 0 < s.highWaterMark ∧
      (Steps.run outputStep s sentAgain).map (fun t => marks t.trace) = some [2, 3])) = true := by
    decide
  obtain ⟨s, hs, hobs⟩ := (Option.any_eq_true _ _).mp hobs
  obtain ⟨h1, h2, h3, h4⟩ := of_decide_eq_true hobs
  obtain ⟨t, ht, hlevel⟩ := high_water_level fresh_alone 2 true true hs h1 h2 h3 sentAgain
  rw [ht] at h4
  exact ⟨s, t, hs, ht, Option.some.inj h4, hlevel⟩

/-- **It is edge triggered** exactly when nothing is sent at the mark or above it. -/
theorem high_water_edge_iff {r : Reactor ι} {c : ι} (hr : Fresh r c) (mark : Nat) (hw wc : Bool)
    {bs : List Act} {s : Conn ι β} (hrun : Steps.run step (init r c mark hw wc) bs = some s)
    (hs : s.state = .kConnected) (hcb : s.highWaterMarkCallback = true)
    (hmark : 0 < s.highWaterMark) (as : List OutputAct) :
    ∃ t, Steps.run outputStep s as = some t ∧
      (EdgeTriggered s as t ↔ ∀ x ∈ Steps.trail outputStep s as, BelowMark x.1 x.2.1) := by
  have hA := (base_run hr mark hw wc hrun).agree
  have hst : s.state ≠ .kDisconnected := by simp [hs]
  obtain ⟨t, ht⟩ := exists_run_output hA hst as
  refine ⟨t, ht, ?_⟩
  have hbuffered : ∀ x ∈ Steps.trail outputStep s as,
      x.2.2.highWaterMark = x.1.highWaterMark ∧ Buffered x.1 x.2.2 x.2.1 :=
    buffered_trail hA hst hcb hmark
  constructor
  · intro h x hx
    obtain ⟨hset, hbuf⟩ := hbuffered x hx
    by_contra hno
    -- the step finds the buffer at the mark and queues a callback all the same
    have hle : x.1.highWaterMark ≤ Fifo.readable x.1.outputBuffer := by
      obtain ⟨u, a, v⟩ := x
      cases a with
      | handleWrite w => exact absurd trivial hno
      | sendInLoop m w =>
        by_contra hlt
        exact hno fun _ => Nat.not_le.mp hlt
    have := (hbuf.marks_fills hset).symm.trans (h.quiet x hx hle)
    rw [if_pos ((hbuf.crosses_or_iff hset).mp (Or.inr hno))] at this
    cases this
  · intro h
    have hexact : ∀ x ∈ Steps.trail outputStep s as, marks (x.1.since x.2.2) =
        if Crosses x.1 x.2.2 then [Fifo.readable x.2.2.outputBuffer] else [] := by
      intro x hx
      obtain ⟨hset, hbuf⟩ := hbuffered x hx
      rw [hbuf.marks_fills hset]
      refine if_congr ((hbuf.crosses_or_iff hset).symm.trans (or_iff_left ?_)) rfl rfl
      exact fun hno => hno (h x hx)
    refine ⟨length_marks hA hst ht (P := fun x => Crosses x.1 x.2.2) hexact, ?_, ?_⟩
    · intro x hx len hlen
      rw [hexact x hx] at hlen
      split at hlen
      · exact List.mem_singleton.mp hlen
      · cases hlen
    · intro x hx hle
      rw [hexact x hx, if_neg]
      rintro ⟨hlt, -⟩
      omega

/-- The second message queues a callback, and the buffer was at the mark before it. -/
theorem high_water_again : ∃ s t, Steps.run step marked2 established = some s ∧
    s.state = .kConnected ∧ s.highWaterMarkCallback = true ∧ 0 < s.highWaterMark ∧
    Steps.run outputStep s sentAgain = some t ∧ ¬ EdgeTriggered s sentAgain t := by
  have hobs : (Steps.run step marked2 established).any (fun s => decide (s.state = .kConnected ∧
      s.highWaterMarkCallback = true ∧ 0 < s.highWaterMark) &&
      (Steps.run outputStep s sentAgain).any (fun t => decide ((marks t.trace).length ≠
        (marks s.trace).length + (Steps.trail outputStep s sentAgain).countP
          fun x => decide (Crosses x.1 x.2.2)))) = true := by
    decide
  obtain ⟨s, hs, hobs⟩ := (Option.any_eq_true _ _).mp hobs
  obtain ⟨hset, hobs⟩ := Bool.and_eq_true_iff.mp hobs
  obtain ⟨h1, h2, h3⟩ := of_decide_eq_true hset
  obtain ⟨t, ht, hne⟩ := (Option.any_eq_true _ _).mp hobs
  exact ⟨s, t, hs, h1, h2, h3, ht, fun h => of_decide_eq_true hne h.count⟩

/-! ### The end of the output -/

/-- The step queues one write-complete callback if it writes something and all that was accepted
has been written, and none otherwise. -/
def ExactComplete (s t : Conn ι β) : Prop :=
  completes (s.since t) =
    if 0 < (sent (s.since t)).length ∧ (sent t.trace).length = (accepted t.trace).length then 1
    else 0

omit [DecidableEq ι] in
/-- All that was accepted has been written when the buffer is empty. -/
theorem Intact.written_iff {s : Conn ι β} (h : Intact s) :
    (sent s.trace).length = (accepted s.trace).length ↔ Fifo.readable s.outputBuffer = 0 := by
  rw [← show _ = accepted s.trace from h, List.length_append, ← Fifo.readable_eq]
  omega

omit [DecidableEq ι] in
/-- A step that leaves something in the buffer, or writes nothing. -/
theorem exactComplete_of_none {s t : Conn ι β} (hi : Intact t)
    (hc : completes (s.since t) = 0)
    (h : 0 < Fifo.readable t.outputBuffer ∨ sent (s.since t) = []) : ExactComplete s t := by
  rw [ExactComplete, hc, if_neg]
  rintro ⟨hpos, hall⟩
  rcases h with h | h
  · have := hi.written_iff.mp hall
    omega
  · rw [h] at hpos
    cases hpos

omit [DecidableEq ι] in
theorem completes_marked (s : Conn ι β) (rest : List UInt8) : completes (s.marked rest) = 0 := by
  unfold marked
  split <;> rfl

omit [DecidableEq ι] in
theorem Buffers.exactComplete {s u t : Conn ι β} {rest : List UInt8} {es : List Effect}
    (h : Buffers u rest t) (hr : rest ≠ []) (hu : u.trace = s.trace ++ es)
    (hes : completes es = 0) (hi : Intact t) : ExactComplete s t := by
  refine exactComplete_of_none hi ?_ (Or.inl ?_)
  · have ht : t.trace = s.trace ++ (es ++ u.marked rest) := by
      rw [h.trace, hu, List.append_assoc]
    rw [since_eq ht, completes_append, hes, completes_marked]
  · rw [Fifo.readable_eq, h.peek, List.length_append]
    exact Nat.add_pos_right _ (List.length_pos_iff.mpr hr)

omit [DecidableEq ι] in
theorem Outputs.exactComplete {s t : Conn ι β} {a : OutputAct} (h : Outputs s a t)
    (hcb : s.writeCompleteCallback = true) (ha : a.Payload) (hi : Intact t) :
    ExactComplete s t := by
  cases h with
  | @sends m w _ h =>
    cases h with
    | @all n hd hn =>
      have hempty : Fifo.readable ((s.emit (.sendInLoop m s.state (some (.wrote n)))).emit
          (.write m.bytes)).completed.outputBuffer = 0 := by
        rw [completed_outputBuffer]
        exact hd.2
      have hsince := since_eq (trace_all s m (.wrote n))
      rw [hcb, if_pos rfl] at hsince
      have hm : 0 < (sent [Effect.sendInLoop m s.state (some (.wrote n)), .write m.bytes,
          .queued .writeComplete]).length := by
        simpa [sent, Effect.sent] using List.length_pos_iff.mpr ha
      rw [ExactComplete, hsince, if_pos ⟨hm, hi.written_iff.mpr hempty⟩]
      rfl
    | @part n _ hd hn ht =>
      refine ht.exactComplete ?_ (List.append_assoc _ _ _) rfl hi
      intro hnil
      have := congrArg List.length hnil
      rw [List.length_drop, List.length_nil] at this
      omega
    | soft hd he hm ht => exact ht.exactComplete hm rfl rfl hi
    | fault hd he =>
      exact exactComplete_of_none hi (by rw [since_eq rfl]; rfl)
        (Or.inr (by rw [since_eq rfl]; rfl))
    | behind hd hm ht => exact ht.exactComplete hm rfl rfl hi
    | empty hd hm => exact absurd hm ha
  | drains h =>
    cases h with
    | idle =>
      have hsince : s.since s = [] := since_eq (List.append_nil _).symm
      exact exactComplete_of_none hi (by rw [hsince]; rfl) (Or.inr (by rw [hsince]; rfl))
    | @part k hw hk hn =>
      refine exactComplete_of_none hi (by rw [since_eq rfl]; rfl) (Or.inl ?_)
      show 0 < Fifo.readable (Fifo.retrieve s.outputBuffer k)
      rw [Fifo.readable_retrieve (Nat.le_of_lt hn)]
      omega
    | all hpos hk hw hb ht hs =>
      rw [finished, hcb, if_pos rfl] at ht
      have hsent : 0 < (sent (s.since t)).length := by
        rw [since_eq ht, sent, List.flatMap_cons, List.length_append]
        exact Nat.add_pos_left (Fifo.readable_eq s.outputBuffer ▸ hpos) _
      rw [ExactComplete, if_pos ⟨hsent, hi.written_iff.mpr hb⟩, since_eq ht]
      split <;> rfl

theorem intact_outputStep {s t : Conn ι β} {a : OutputAct} (hs : Intact s)
    (h : outputStep s a = some t) : Intact t := by
  cases a with
  | sendInLoop m w => exact intact_sendInLoop hs (Steps.toOption_eq_some.mp h)
  | handleWrite w => exact intact_handleWrite hs (Steps.toOption_eq_some.mp h)

/-- **The write-complete callback is exact** over both ways of writing. -/
theorem write_complete_exact {r : Reactor ι} {c : ι} (hr : Fresh r c) (mark : Nat) (hw wc : Bool)
    {bs : List Act} {s : Conn ι β} (hrun : Steps.run step (init r c mark hw wc) bs = some s)
    (hs : s.state ≠ .kDisconnected) (hcb : s.writeCompleteCallback = true) {as : List OutputAct}
    (has : ∀ a ∈ as, a.Payload) : ∃ t, Steps.run outputStep s as = some t ∧
      ∀ x ∈ Steps.trail outputStep s as, ExactComplete x.1 x.2.2 := by
  obtain ⟨hb, hi⟩ := intact_run hr mark hw wc hrun
  obtain ⟨t, ht⟩ := exists_run_output hb.agree hs as
  refine ⟨t, ht, ?_⟩
  intro x hx
  obtain ⟨hfix, ho, -⟩ := outputs_trail hb.agree hs x hx
  obtain ⟨hix, hstep⟩ := Steps.mem_trail (I := Intact) (fun u a v => intact_outputStep) hi x hx
  exact ho.exactComplete (hfix.complete.trans hcb) (has _ (Steps.label_mem_of_mem_trail x hx))
    (intact_outputStep hix hstep)

/-- A message is written in part and the rest is drained; then a direct write takes all. -/
def completeTwice : List OutputAct :=
  [.sendInLoop ⟨0, [1, 2, 3]⟩ (.wrote 1), .handleWrite (.wrote 2), .sendInLoop ⟨1, [4]⟩ (.wrote 1)]

theorem write_complete_exact_twice : ∃ s t, Steps.run step marked2 established = some s ∧
    Steps.run outputStep s completeTwice = some t ∧ completes t.trace = 2 ∧
    ∀ x ∈ Steps.trail outputStep s completeTwice, ExactComplete x.1 x.2.2 := by
  have hobs : (Steps.run step marked2 established).any (fun s => decide (
      s.state ≠ .kDisconnected ∧ s.writeCompleteCallback = true ∧
      (Steps.run outputStep s completeTwice).map (fun t => completes t.trace) = some 2)) = true := by
    decide
  obtain ⟨s, hs, hobs⟩ := (Option.any_eq_true _ _).mp hobs
  obtain ⟨h1, h2, h3⟩ := of_decide_eq_true hobs
  have hpay : ∀ a ∈ completeTwice, a.Payload := by simp [completeTwice, OutputAct.Payload]
  obtain ⟨t, ht, hall⟩ := write_complete_exact fresh_alone 2 true true hs h1 h2 hpay
  rw [ht] at h3
  exact ⟨s, t, hs, ht, Option.some.inj h3, hall⟩

end Conn

end SimpleNet
