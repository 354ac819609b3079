import SimpleNet.Connection.Input
import SimpleNet.Lib.Pipe

/-!
# Two connections

The two ends of a socket, each a connection in a loop of its own with its users and threads, and
the kernels between them: what one side's `::write` takes arrives at the other side's `readFd` in
order and in pieces of any size.  `shutdownWrite` and the close of a socket end the stream, and a
`::write` after that fails with `EPIPE`.  The users take the input out of its buffer when they like.
A reset may lose what is in flight.

`stream_delivered`: in every interleaving what one side accepted is what the other side has read,
what is in flight and what waits in the output buffer, in this order; a side that reads the end
of the stream has read all that was written.
`shutdown_delivers`: where the sender is not closed before it has half-closed, the side that reads
the end has read all that was accepted.
-/

namespace SimpleNet

open Function (update)

structure Peers (ι β : Type) where
  side : Bool → Conn ι β
  /-- from the side to the other one -/
  pipe : Bool → Pipe UInt8
  /-- what the side's users have retrieved from its input buffer -/
  taken : Bool → List UInt8

namespace Peers

inductive Act
  /-- a step of one side -/
  | conn (b : Bool) (a : Conn.Act)
  /-- the message callback of one side retrieves bytes -/
  | retrieve (b : Bool) (n : Nat)
  /-- one side closes its socket -/
  | close (b : Bool)
  | reset
  deriving DecidableEq

/-- What `readFd` takes out of the pipe. -/
def readFd (p : Pipe UInt8) : Option ReadResult → Option (Pipe UInt8)
  | some (.data bytes) => p.receive bytes
  | _ => some p

variable {ι β : Type}

/-- All that the side has read. -/
def input [Fifo β UInt8] (p : Peers ι β) (b : Bool) : List UInt8 :=
  p.taken b ++ Fifo.peek (p.side b).inputBuffer

/-- `Buffer::retrieve` on the input buffer. -/
def retrieve [Fifo β UInt8] (p : Peers ι β) (b : Bool) (n : Nat) : Peers ι β :=
  let s := p.side b
  { p with
    side := update p.side b { s with inputBuffer := Fifo.retrieve s.inputBuffer n }
    taken := update p.taken b (p.taken b ++ (Fifo.peek s.inputBuffer).take n) }

variable [DecidableEq ι] [Fifo β UInt8]

def step (p : Peers ι β) : Act → Option (Peers ι β)
  | .conn b a =>
    if (p.pipe b).fin = true ∧ ∃ w ∈ a.write, w ≠ .error EPIPE then none
    else do
      let t ← Conn.step (p.side b) a
      let es := t.trace.drop (p.side b).trace.length
      let out ← (p.pipe b).send (sent es) (decide (.shutdownWrite ∈ es))
      let inn ← readFd (p.pipe !b) ((p.side b).reads a)
      return { p with side := update p.side b t, pipe := update (update p.pipe b out) (!b) inn }
  | .retrieve b n =>
    if (p.side b).inUser ∧ n ≤ Fifo.readable (p.side b).inputBuffer then some (p.retrieve b n)
    else none
  | .close b => some { p with pipe := update p.pipe b (p.pipe b).close }
  | .reset => some { p with pipe := fun b => (p.pipe b).cut }

/-- Two connections that have just been constructed. -/
def start (r : Bool → Reactor ι) (c : Bool → ι) (mark : Bool → Nat) (hw wc : Bool → Bool) :
    Peers ι β where
  side b := .init (r b) (c b) (mark b) (hw b) (wc b)
  pipe _ := .empty
  taken _ := []

/-! ### Steps -/

section

variable {p q : Peers ι β} {b d : Bool}

/-- What a step of the side `b` does. -/
structure Moved (p : Peers ι β) (b : Bool) (a : Conn.Act) (t : Conn ι β) (es : List Effect)
    (q : Peers ι β) : Prop where
  spent : (p.pipe b).fin = true → ∀ w ∈ a.write, w = .error EPIPE
  step : Conn.step (p.side b) a = some t
  trace : t.trace = (p.side b).trace ++ es
  side : q.side = update p.side b t
  out : (p.pipe b).send (sent es) (decide (.shutdownWrite ∈ es)) = some (q.pipe b)
  inn : readFd (p.pipe !b) ((p.side b).reads a) = some (q.pipe !b)
  taken : q.taken = p.taken

theorem moved_of_step {a : Conn.Act} (hb : (p.side b).Base) (h : step p (.conn b a) = some q) :
    ∃ t es, Moved p b a t es q := by
  rw [step] at h
  split at h
  · cases h
  next hw =>
  simp only [Option.bind_eq_bind, Option.bind_eq_some_iff, Option.pure_def] at h
  obtain ⟨t, ht, out, hout, inn, hinn, hq⟩ := h
  obtain rfl := Option.some.inj hq
  obtain ⟨es, htrace, -⟩ := (Conn.piece_stepped (w := a.write.getD (.wrote 0)) hb
    (Conn.step_stepped hb.agree ht).2 fun v hv => by rw [hv]; rfl).trace
  rw [htrace, List.drop_left] at hout
  refine ⟨t, es, fun hfin w hm => ?_, ht, htrace, rfl, ?_, ?_, rfl⟩
  · by_contra hne
    exact hw ⟨hfin, w, hm, hne⟩
  · simpa using hout
  · simpa using hinn

omit [DecidableEq ι] [Fifo β UInt8] in
theorem eq_or_other (b d : Bool) : d = b ∨ d = !b := by
  cases b <;> cases d <;> simp

/-- Of a step of `b` its output pipe sees the writes. -/
theorem Moved.sent {a : Conn.Act} {t : Conn ι β} {es : List Effect} (h : Moved p b a t es q) :
    sent (q.side b).trace = sent (p.side b).trace ++ sent es := by
  rw [h.side, Function.update_self, h.trace, sent_append]

theorem Moved.other {a : Conn.Act} {t : Conn ι β} {es : List Effect} (h : Moved p b a t es q) :
    q.side (!b) = p.side !b := by
  rw [h.side, Function.update_of_ne (by simp)]

/-- The input of the side that takes a step grows by what it reads. -/
theorem Moved.input {a : Conn.Act} {t : Conn ι β} {es : List Effect} (hb : (p.side b).Base)
    (h : Moved p b a t es q) : q.input b = p.input b ++ (p.side b).input a := by
  have hpiece := (Conn.piece_stepped (w := a.write.getD (.wrote 0)) hb
    (Conn.step_stepped hb.agree h.step).2 fun v hv => by rw [hv]; rfl).input
  rw [Peers.input, h.side, h.taken, Function.update_self, hpiece, ← List.append_assoc]
  rfl

theorem Moved.input_other {a : Conn.Act} {t : Conn ι β} {es : List Effect}
    (h : Moved p b a t es q) : q.input (!b) = p.input !b := by
  rw [Peers.input, h.other, h.taken]
  rfl

omit [DecidableEq ι] in
theorem input_retrieve {n : Nat} (hn : n ≤ Fifo.readable (p.side b).inputBuffer) (d : Bool) :
    (p.retrieve b n).input d = p.input d := by
  by_cases hd : d = b
  · subst hd
    simp only [input, retrieve, Function.update_self]
    rw [Fifo.peek_retrieve _ n hn, List.append_assoc, List.take_append_drop]
  · simp only [input, retrieve, Function.update_of_ne hd]

omit [DecidableEq ι] in
/-- A side after a retrieval differs in its input buffer only. -/
theorem side_retrieve (p : Peers ι β) (b : Bool) (n : Nat) (d : Bool) :
    ∃ buf, (p.retrieve b n).side d = { p.side d with inputBuffer := buf } := by
  by_cases hd : d = b
  · subst hd
    exact ⟨_, Function.update_self ..⟩
  · exact ⟨_, Function.update_of_ne hd ..⟩

/-! ### The stream -/

/-- What the pipes carry is what the sides write and read. -/
structure Flows (p : Peers ι β) : Prop where
  base : ∀ d, (p.side d).Base
  intact : ∀ d, (p.side d).Intact
  carries : ∀ d, (p.pipe d).Carries (SimpleNet.sent (p.side d).trace) (p.input !d)

omit [DecidableEq ι] [Fifo β UInt8] in
theorem carries_readFd {s t : Pipe UInt8} {l m : List UInt8} (h : s.Carries l m)
    {r : Option ReadResult} (hr : readFd s r = some t) :
    t.Carries l (m ++ (r.map ReadResult.bytes).getD []) := by
  have hsame : s = t → t.Carries l (m ++ []) := by
    rintro rfl
    rwa [List.append_nil]
  match r with
  | none => exact hsame (Option.some.inj hr)
  | some (.error _) => exact hsame (Option.some.inj hr)
  | some (.data bytes) => exact h.receive hr

omit [DecidableEq ι] [Fifo β UInt8] in
theorem fin_readFd {s t : Pipe UInt8} {r : Option ReadResult} (hr : readFd s r = some t) :
    t.fin = s.fin := by
  match r with
  | none => exact (Option.some.inj hr) ▸ rfl
  | some (.error _) => exact (Option.some.inj hr) ▸ rfl
  | some (.data bytes) => exact Pipe.fin_receive hr

theorem flows_step {a : Act} (h : Flows p) (hs : step p a = some q) : Flows q := by
  cases a with
  | conn b a =>
    obtain ⟨t, es, hm⟩ := moved_of_step (h.base b) hs
    obtain ⟨-, hst⟩ := Conn.step_stepped (h.base b).agree hm.step
    have hself : q.side b = t := by rw [hm.side, Function.update_self]
    refine ⟨fun d => ?_, fun d => ?_, fun d => ?_⟩
    all_goals rcases eq_or_other b d with rfl | rfl
    · exact hself ▸ Conn.base_stepped (h.base _) hst
    · exact hm.other ▸ h.base _
    · exact hself ▸ Conn.intact_stepped (h.base _) hst (h.intact _)
    · exact hm.other ▸ h.intact _
    · rw [hm.sent, hm.input_other]
      exact (h.carries _).send hm.out
    · have hc := h.carries !b
      rw [Bool.not_not] at hc ⊢
      rw [hm.other, hm.input (h.base b)]
      exact carries_readFd hc hm.inn
  | retrieve b n =>
    obtain ⟨⟨-, hn⟩, hq⟩ := Option.ite_none_right_eq_some.mp hs
    obtain rfl := Option.some.inj hq
    refine ⟨fun d => ?_, fun d => ?_, fun d => ?_⟩
    all_goals obtain ⟨buf, hbuf⟩ := side_retrieve p b n d; rw [hbuf]
    · exact { h.base d with }
    · exact h.intact d
    · rw [input_retrieve hn]
      exact h.carries d
  | close b =>
    obtain rfl := Option.some.inj hs
    refine ⟨h.base, h.intact, fun d => ?_⟩
    show (update p.pipe b (p.pipe b).close d).Carries _ (p.input !d)
    by_cases hd : d = b
    · subst hd
      rw [Function.update_self]
      exact (h.carries d).close
    · rw [Function.update_of_ne hd]
      exact h.carries d
  | reset =>
    obtain rfl := Option.some.inj hs
    exact ⟨h.base, h.intact, fun d => (h.carries d).cut⟩

end

section

variable {r : Bool → Reactor ι} {c : Bool → ι}

omit [DecidableEq ι] in
theorem flows_start (hr : ∀ b, Conn.Fresh (r b) (c b)) (mark : Bool → Nat) (hw wc : Bool → Bool) :
    Flows (start r c mark hw wc : Peers ι β) where
  base d := Conn.base_init (hr d) (mark d) (hw d) (wc d)
  intact d := by simp [start, Conn.Intact, Conn.init, sent, accepted]
  carries d := by
    have hinput : (start r c mark hw wc : Peers ι β).input (!d) = [] := Fifo.peek_empty
    rw [hinput]
    exact Pipe.carries_empty

/-- **No byte is lost, repeated or overtaken** between the `send` of one side and the input buffer
of the other. -/
theorem stream_delivered (hr : ∀ b, Conn.Fresh (r b) (c b)) (mark : Bool → Nat)
    (hw wc : Bool → Bool) {as : List Act} {p : Peers ι β}
    (hrun : Steps.run step (start r c mark hw wc) as = some p) (b : Bool) :
    p.input (!b) ++ (p.pipe b).flight ++ Fifo.peek (p.side b).outputBuffer =
        accepted (p.side b).trace ∧
      ((p.pipe b).ended = true → p.input (!b) = sent (p.side b).trace) := by
  have h : Flows p := Steps.run_invariant (fun _ _ _ h hs => flows_step h hs)
    (flows_start hr mark hw wc) hrun
  rw [(h.carries b).stream]
  exact ⟨h.intact b, (h.carries b).all⟩

end

/-- Two connections `alone` in their loops. -/
def pair : Peers Unit (List UInt8) :=
  start (fun _ => Reactor.fresh fun _ => 5) (fun _ => ()) (fun _ => 64) (fun _ => false) fun _ => true

/-- The loop of a side handles one event, up to its callback. -/
def event (b : Bool) (m : Mask) (n : Nat) (w : WriteResult) (r : ReadResult) : List Act :=
  (Conn.Act.poll [(5, m)] :: (Conn.goes n ++ [Conn.Act.go w r])).map (.conn b)

/-- A callback sends, with a short write, and shuts the connection down; the loop writes the rest.
The other side reads it in two pieces, and then the end. -/
def halfClosed : List Act :=
  Conn.established.map (.conn false) ++
  [.conn true (.enter .connectEstablished (.wrote 0) (.data [])),
    .conn true (.call (.send ⟨0, [1, 2, 3]⟩) (.wrote 2)), .conn true (.call .shutdown (.wrote 0)),
    .conn true .ret] ++
  event false POLLIN 3 (.wrote 0) (.data [1]) ++ [.retrieve false 1, .conn false .ret] ++
  event true POLLOUT 4 (.wrote 1) (.data []) ++
  (Conn.goes 5).map (.conn false) ++ event false POLLIN 3 (.wrote 0) (.data [2, 3]) ++
  [.conn false .ret] ++ (Conn.goes 5).map (.conn false) ++ event false POLLIN 3 (.wrote 0) (.data [])

theorem stream_delivered_pair : ∃ p, Steps.run step pair halfClosed = some p ∧
    p.taken false = [1] ∧ p.input false = [1, 2, 3] ∧ p.input false = sent (p.side true).trace := by
  have hobs : (Steps.run step pair halfClosed).any (fun p => decide
      (p.taken false = [1] ∧ p.input false = [1, 2, 3] ∧ (p.pipe true).ended = true)) = true := by
    decide
  obtain ⟨p, hp, hobs⟩ := (Option.any_eq_true _ _).mp hobs
  obtain ⟨htaken, hinput, hended⟩ := of_decide_eq_true hobs
  exact ⟨p, hp, htaken, hinput,
    (stream_delivered (fun _ => Conn.fresh_alone) _ _ _ hp true).2 hended⟩

/-! ### The end of the stream -/

section

variable {r : Bool → Reactor ι} {c : Bool → ι}

/-- The side `b` is not closed before it has half-closed its socket. -/
def Orderly (b : Bool) (p : Peers ι β) : Act → Prop
  | .conn d a => d = b → (p.pipe b).fin = false → (p.side b).StaysUp a
  | .close d => d = b → (p.pipe b).fin = true
  | _ => True

instance (b : Bool) (p : Peers ι β) : (a : Act) → Decidable (Orderly b p a)
  | .conn .. => inferInstanceAs (Decidable (_ → _ → _))
  | .close _ => inferInstanceAs (Decidable (_ → _))
  | .retrieve .. | .reset => .isTrue trivial

/-- A half-closed side has nothing left to write. -/
structure Spent (b : Bool) (p : Peers ι β) : Prop where
  flows : Flows p
  matched : (p.pipe b).fin = false → (p.side b).Matched
  direct : (p.pipe b).fin = true → (p.side b).Direct

theorem spent_moved {p q : Peers ι β} {b : Bool} {a : Conn.Act} {t : Conn ι β} {es : List Effect}
    (h : Spent b p) (hok : Orderly b p (.conn b a)) (hm : Moved p b a t es q) :
    ((q.pipe b).fin = false → t.Matched) ∧ ((q.pipe b).fin = true → t.Direct) := by
  have hb := h.flows.base b
  obtain ⟨-, hst⟩ := Conn.step_stepped hb.agree hm.step
  have hfin := Pipe.fin_send hm.out
  cases hpf : (p.pipe b).fin with
  | true =>
    -- every `::write` fails with `EPIPE`
    rw [hpf, Bool.true_or] at hfin
    refine ⟨fun hq => ?_, fun _ => ?_⟩
    · rw [hfin] at hq
      cases hq
    · exact (Conn.piece_stepped hb hst (hm.spent hpf)).spent rfl (h.direct hpf)
  | false =>
    have hmatched := Conn.matched_stepped hb (hok rfl hpf) hst (h.matched hpf)
    refine ⟨fun _ => hmatched, fun hq => ?_⟩
    rw [hfin, hpf, Bool.false_or, decide_eq_true_eq] at hq
    obtain ⟨fs, hfs, hclosed⟩ := (Conn.piece_stepped (w := a.write.getD (.wrote 0)) hb hst
      fun v hv => by rw [hv]; rfl).trace
    obtain rfl : es = fs := List.append_cancel_left (hm.trace.symm.trans hfs)
    have hw := hclosed hq
    refine ⟨hw, Nat.eq_zero_of_not_pos fun hpos => ?_⟩
    rw [hmatched.mpr hpos] at hw
    cases hw

theorem spent_step {p q : Peers ι β} {b : Bool} {a : Act} (h : Spent b p) (hok : Orderly b p a)
    (hs : step p a = some q) : Spent b q := by
  have hflows := flows_step h.flows hs
  cases a with
  | conn d a =>
    obtain ⟨t, es, hm⟩ := moved_of_step (h.flows.base d) hs
    rcases eq_or_other b d with rfl | rfl
    · have hself : q.side d = t := by rw [hm.side, Function.update_self]
      obtain ⟨h1, h2⟩ := spent_moved h hok hm
      exact ⟨hflows, fun hf => hself ▸ h1 hf, fun hf => hself ▸ h2 hf⟩
    · have hside := hm.other
      have hpipe := hm.inn
      rw [Bool.not_not] at hside hpipe
      have hfin := fin_readFd hpipe
      exact ⟨hflows, fun hf => hside ▸ h.matched (hfin ▸ hf), fun hf => hside ▸ h.direct (hfin ▸ hf)⟩
  | retrieve d n =>
    obtain ⟨-, hq⟩ := Option.ite_none_right_eq_some.mp hs
    obtain rfl := Option.some.inj hq
    obtain ⟨buf, hbuf⟩ := side_retrieve p d n b
    exact ⟨hflows, fun hf => hbuf ▸ h.matched hf, fun hf => hbuf ▸ h.direct hf⟩
  | close d =>
    obtain rfl := Option.some.inj hs
    have hfin : (update p.pipe d (p.pipe d).close b).fin = (p.pipe b).fin := by
      by_cases hd : b = d
      · subst hd
        rw [Function.update_self, hok rfl]
        rfl
      · rw [Function.update_of_ne hd]
    exact ⟨hflows, fun hf => h.matched (hfin ▸ hf), fun hf => h.direct (hfin ▸ hf)⟩
  | reset =>
    obtain rfl := Option.some.inj hs
    exact ⟨hflows, h.matched, h.direct⟩

/-- **A graceful shutdown delivers all**: when the other side reads the end of the stream, it has
read all payloads that were accepted. -/
theorem shutdown_delivers (hr : ∀ b, Conn.Fresh (r b) (c b)) (mark : Bool → Nat)
    (hw wc : Bool → Bool) (b : Bool) {as : List Act} {p : Peers ι β}
    (hrun : Steps.run (Steps.guarded (Orderly b) step) (start r c mark hw wc) as = some p)
    (he : (p.pipe b).ended = true) : p.input (!b) = accepted (p.side b).trace := by
  have h : Spent b p := by
    refine Steps.run_invariant (I := Spent b) (fun s a t h hs => ?_) ?_ hrun
    · obtain ⟨hok, hs⟩ := Steps.guarded_eq_some.mp hs
      exact spent_step h hok hs
    · exact ⟨flows_start hr mark hw wc, fun _ => Conn.matched_init (hr b) _ _ _, nofun⟩
  have hcarries := h.flows.carries b
  have hpeek := Fifo.readable_eq_zero.mp (h.direct (hcarries.ended he).1).2
  rw [hcarries.all he, ← h.flows.intact b, hpeek, List.append_nil]

end

theorem shutdown_delivers_pair : ∃ p,
    Steps.run (Steps.guarded (Orderly true) step) pair halfClosed = some p ∧
    (p.pipe true).ended = true ∧ p.input false = accepted (p.side true).trace := by
  have hobs : (Steps.run (Steps.guarded (Orderly true) step) pair halfClosed).any
      (fun p => (p.pipe true).ended) = true := by
    decide
  obtain ⟨p, hp, hended⟩ := (Option.any_eq_true _ _).mp hobs
  exact ⟨p, hp, hended, shutdown_delivers (fun _ => Conn.fresh_alone) _ _ _ true hp hended⟩

end Peers

end SimpleNet
