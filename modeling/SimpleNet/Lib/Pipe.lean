import Mathlib.Tactic.Common

/-!
# Pipes

One direction of a reliable stream: what is sent arrives in order, in pieces of any size, and the
end of the stream is seen when all before it has been received.  A stream that was cut may seem to
end at any time.
-/

structure Pipe (α : Type*) where
  /-- sent and not yet received -/
  flight : List α
  /-- nothing more is sent -/
  fin : Bool
  /-- the rest may get lost -/
  broken : Bool
  /-- the receiver has seen the end -/
  ended : Bool

namespace Pipe

variable {α : Type*} {p q : Pipe α} {l sent received : List α}

def empty : Pipe α := ⟨[], false, false, false⟩

def close (p : Pipe α) : Pipe α := { p with fin := true }

def cut (p : Pipe α) : Pipe α := { p with broken := true }

/-- The sender sends `l`, and then ends the stream if `fin`. -/
def send (p : Pipe α) (l : List α) (fin : Bool) : Option (Pipe α) :=
  if p.fin ∧ l ≠ [] then none else some { p with flight := p.flight ++ l, fin := p.fin || fin }

/-- The receiver gets `l`; nothing is the end of the stream. -/
def receive [DecidableEq α] (p : Pipe α) (l : List α) : Option (Pipe α) :=
  if l = [] then
    if p.fin ∧ p.flight = [] then some { p with ended := true }
    else if p.broken then some p else none
  else if l <+: p.flight then some { p with flight := p.flight.drop l.length } else none

theorem receive_cases [DecidableEq α] (h : p.receive l = some q) :
    (l = [] ∧ p.fin = true ∧ p.flight = [] ∧ q = { p with ended := true }) ∨ (l = [] ∧ q = p) ∨
      (l ≠ [] ∧ l <+: p.flight ∧ q = { p with flight := p.flight.drop l.length }) := by
  unfold receive at h
  split at h
  · next hl =>
    split at h
    · next hend => exact Or.inl ⟨hl, hend.1, hend.2, (Option.some.inj h).symm⟩
    · exact Or.inr (Or.inl ⟨hl, (Option.some.inj (Option.ite_none_right_eq_some.mp h).2).symm⟩)
  · next hl =>
    obtain ⟨hp, hq⟩ := Option.ite_none_right_eq_some.mp h
    exact Or.inr (Or.inr ⟨hl, hp, (Option.some.inj hq).symm⟩)

theorem fin_receive [DecidableEq α] (h : p.receive l = some q) : q.fin = p.fin := by
  rcases receive_cases h with ⟨-, -, -, rfl⟩ | ⟨-, rfl⟩ | ⟨-, -, rfl⟩ <;> rfl

theorem fin_send {fin : Bool} (h : p.send l fin = some q) : q.fin = (p.fin || fin) := by
  unfold send at h
  split at h
  · cases h
  · exact Option.some.inj h ▸ rfl

/-- What was received and what is in flight is what was sent. -/
structure Carries (p : Pipe α) (sent received : List α) : Prop where
  stream : received ++ p.flight = sent
  ended : p.ended = true → p.fin = true ∧ p.flight = []

theorem carries_empty : Carries (empty : Pipe α) [] [] := ⟨rfl, nofun⟩

theorem Carries.close (h : Carries p sent received) : Carries p.close sent received :=
  ⟨h.stream, fun he => ⟨rfl, (h.ended he).2⟩⟩

theorem Carries.cut (h : Carries p sent received) : Carries p.cut sent received :=
  ⟨h.stream, h.ended⟩

theorem Carries.send {fin : Bool} (h : Carries p sent received) (hq : p.send l fin = some q) :
    Carries q (sent ++ l) received := by
  unfold Pipe.send at hq
  split at hq
  · cases hq
  · next hl =>
    obtain rfl := Option.some.inj hq
    refine ⟨by rw [← List.append_assoc, h.stream], fun he => ?_⟩
    obtain ⟨hfin, hflight⟩ := h.ended he
    have hnil : l = [] := by
      by_contra hne
      exact hl ⟨hfin, hne⟩
    exact ⟨by rw [hfin, Bool.true_or], by rw [hflight, hnil]; rfl⟩

theorem Carries.receive [DecidableEq α] (h : Carries p sent received)
    (hq : p.receive l = some q) : Carries q sent (received ++ l) := by
  rcases receive_cases hq with ⟨rfl, hfin, hflight, rfl⟩ | ⟨rfl, rfl⟩ | ⟨hl, ⟨m, hm⟩, rfl⟩
  · rw [List.append_nil]
    exact ⟨h.stream, fun _ => ⟨hfin, hflight⟩⟩
  · rwa [List.append_nil]
  · have hdrop : p.flight.drop l.length = m := by rw [← hm, List.drop_left]
    refine ⟨?_, fun he => ?_⟩
    · show received ++ l ++ p.flight.drop l.length = sent
      rw [hdrop, List.append_assoc, hm, h.stream]
    · have hnil := (h.ended he).2
      rw [← hm] at hnil
      exact absurd (List.append_eq_nil_iff.mp hnil).1 hl

theorem Carries.all (h : Carries p sent received) (he : p.ended = true) : received = sent := by
  rw [← h.stream, (h.ended he).2, List.append_nil]

end Pipe
