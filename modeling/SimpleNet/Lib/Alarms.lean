import SimpleNet.Lib.Refine
import Mathlib.Order.Basic
import Mathlib.Data.Set.Insert
import Mathlib.Logic.Function.Basic

/-!
# A service of alarms

An alarm is set under a key that has not been used before, for a time `due`; one with a period is
set again after each firing.  Requests of others wait in an inbox.  Time passes, and in rounds the
service takes the armed alarms that are due at the start of the round, fires them one by one, and
then arms those again that repeat and were not cancelled meanwhile.  How an alarm with the period
`p` is set again in a round that started at `now` is a parameter: it is due at `next now p`.

The service has no memory to manage, no order among alarms that are due at the same time, and no
second table of what is armed.
-/

open Function (update)
open scoped Classical

/-- When an alarm is due next, and its period if it repeats. -/
structure Alarm (τ π : Type*) where
  due : τ
  period : Option π

namespace Alarms

variable {κ τ π : Type*}

/-- What others ask for. -/
inductive Request (κ : Type*)
  | set (k : κ)
  | cancel (k : κ)

/-- The round that started at `now`: the alarms it took, those still to come, and those cancelled
since. -/
structure Round (κ τ : Type*) where
  now : τ
  taken : List κ
  todo : List κ
  dropped : Set κ

@[ext]
structure Service (κ τ π : Type*) where
  clock : τ
  used : Set κ
  alarms : κ → Option (Alarm τ π)
  armed : Set κ
  inbox : List (Request κ)
  round : Option (Round κ τ)

inductive Label (κ τ π : Type*)
  | set (k : κ) (a : Alarm τ π)
  /-- someone else sets an alarm -/
  | ask (k : κ) (a : Alarm τ π)
  | cancel (k : κ)
  | askCancel (k : κ)
  | answer (r : Request κ)
  | start (ks : List κ)
  | fire (k : κ)
  | finish
  | idle

/-- The alarm that is set. -/
def Label.created : Label κ τ π → Option (κ × Alarm τ π)
  | .set k a | .ask k a => some (k, a)
  | _ => none

def Label.fired : Label κ τ π → Option κ
  | .fire k => some k
  | _ => none

def Label.cancelled : Label κ τ π → Option κ
  | .cancel k | .answer (.cancel k) => some k
  | _ => none

namespace Service

def init (clock : τ) : Service κ τ π where
  clock := clock
  used := ∅
  alarms _ := none
  armed := ∅
  inbox := []
  round := none

def arm (s : Service κ τ π) (k : κ) : Service κ τ π := { s with armed := insert k s.armed }

/-- An alarm that is not armed is not set again when the round ends. -/
noncomputable def drop (s : Service κ τ π) (k : κ) : Service κ τ π :=
  if k ∈ s.armed then
    { s with alarms := update s.alarms k none, armed := s.armed \ {k} }
  else { s with round := s.round.map fun r => { r with dropped := insert k r.dropped } }

noncomputable def create (s : Service κ τ π) (k : κ) (a : Alarm τ π) : Service κ τ π :=
  { s with used := insert k s.used, alarms := update s.alarms k (some a) }

noncomputable def answer (s : Service κ τ π) : Request κ → Service κ τ π
  | .set k => s.arm k
  | .cancel k => s.drop k

/-- A request of someone else. -/
def push (s : Service κ τ π) (q : Request κ) : Service κ τ π := { s with inbox := s.inbox ++ [q] }

def start (s : Service κ τ π) (ks : List κ) : Service κ τ π :=
  { s with armed := s.armed \ {k | k ∈ ks}, round := some ⟨s.clock, ks, ks, ∅⟩ }

/-- What the end of a round makes of an alarm that it took. -/
noncomputable def again (next : τ → π → τ) (r : Round κ τ) (k : κ) (a : Alarm τ π) :
    Option (Alarm τ π) :=
  if k ∈ r.dropped then none else a.period.map fun p => ⟨next r.now p, some p⟩

noncomputable def finish (next : τ → π → τ) (s : Service κ τ π) (r : Round κ τ) : Service κ τ π :=
  let alarms k := if k ∈ r.taken then (s.alarms k).bind (again next r k) else s.alarms k
  { s with
    alarms := alarms
    armed := s.armed ∪ {k | k ∈ r.taken ∧ (alarms k).isSome}
    round := none }

section

variable {s : Service κ τ π} {j k : κ} {a : Alarm τ π}

@[simp] theorem create_alarms_self : (s.create k a).alarms k = some a := by
  simp [create]

theorem create_alarms_of_ne (h : j ≠ k) : (s.create k a).alarms j = s.alarms j :=
  Function.update_of_ne h _ _

theorem drop_of_armed (h : k ∈ s.armed) : s.drop k = { s with
    alarms := fun j => if j = k then none else s.alarms j, armed := s.armed \ {k} } := by
  have hupdate : update s.alarms k none = fun j => if j = k then none else s.alarms j :=
    funext fun j => Function.update_apply _ _ _ _
  rw [← hupdate]
  exact if_pos h

theorem drop_of_not_armed (h : k ∉ s.armed) : s.drop k = { s with
    round := s.round.map fun r => { r with dropped := insert k r.dropped } } := if_neg h

theorem drop_clock (s : Service κ τ π) (k : κ) : (s.drop k).clock = s.clock := by
  unfold drop
  split <;> rfl

theorem drop_used (s : Service κ τ π) (k : κ) : (s.drop k).used = s.used := by
  unfold drop
  split <;> rfl

variable {next : τ → π → τ} {r : Round κ τ}

theorem finish_alarms_of_mem (h : k ∈ r.taken) :
    (s.finish next r).alarms k = (s.alarms k).bind (again next r k) := if_pos h

theorem finish_alarms_of_not_mem (h : k ∉ r.taken) : (s.finish next r).alarms k = s.alarms k :=
  if_neg h

theorem mem_finish_armed : k ∈ (s.finish next r).armed ↔
    k ∈ s.armed ∨ k ∈ r.taken ∧ ((s.finish next r).alarms k).isSome := Iff.rfl

end

end Service

open Service

/-- The steps; those that take time end at a later clock `c`. -/
inductive Step [LE τ] (next : τ → π → τ) (s : Service κ τ π) :
    Label κ τ π → Service κ τ π → Prop
  | set (k : κ) (a : Alarm τ π) (c : τ) (hk : k ∉ s.used) (hc : s.clock ≤ c) :
    Step next s (.set k a) { (s.create k a).arm k with clock := c }
  | ask (k : κ) (a : Alarm τ π) (hk : k ∉ s.used) :
    Step next s (.ask k a) ((s.create k a).push (.set k))
  | cancel (k : κ) : Step next s (.cancel k) (s.drop k)
  | askCancel (k : κ) : Step next s (.askCancel k) (s.push (.cancel k))
  | answer (r : Request κ) (rs : List (Request κ)) (c : τ) (hr : s.inbox = r :: rs)
    (hn : s.round = none) (hc : s.clock ≤ c) :
    Step next s (.answer r) { { s with inbox := rs }.answer r with clock := c }
  | start (ks : List κ) (c : τ) (hn : s.round = none) (hnd : ks.Nodup)
    (hks : ∀ k, k ∈ ks ↔ k ∈ s.armed ∧ ∃ a, s.alarms k = some a ∧ a.due ≤ s.clock)
    (hord : ks.Pairwise fun j k => ∀ a b, s.alarms j = some a → s.alarms k = some b →
      a.due ≤ b.due) (hc : s.clock ≤ c) :
    Step next s (.start ks) { s.start ks with clock := c }
  | fire (k : κ) (r : Round κ τ) (ks : List κ) (hr : s.round = some r) (ht : r.todo = k :: ks) :
    Step next s (.fire k) { s with round := some { r with todo := ks } }
  | finish (r : Round κ τ) (c : τ) (hr : s.round = some r) (ht : r.todo = []) (hc : s.clock ≤ c) :
    Step next s .finish { s.finish next r with clock := c }
  | idle (c : τ) (hc : s.clock ≤ c) : Step next s .idle { s with clock := c }

/-! ### Where the alarms are -/

/-- The key that is to be set. -/
def Request.added : Request κ → Option κ
  | .set k => some k
  | .cancel _ => none

namespace Service

/-- The alarms whose request waits. -/
def asked (s : Service κ τ π) : List κ := s.inbox.filterMap Request.added

/-- The alarms of the round. -/
def taken (s : Service κ τ π) : List κ :=
  match s.round with
  | some r => r.taken
  | none => []

/-- The alarm has had its turn in the round. -/
def Fired (s : Service κ τ π) (k : κ) : Prop := ∃ r ∈ s.round, k ∈ r.taken ∧ k ∉ r.todo

/-- An alarm is armed, in the inbox or in the round. -/
structure Placed [LE τ] (s : Service κ τ π) : Prop where
  used : ∀ k a, s.alarms k = some a → k ∈ s.used
  live : ∀ k, (s.alarms k).isSome ↔ k ∈ s.armed ∨ k ∈ s.asked ++ s.taken
  apart : ∀ k ∈ s.asked ++ s.taken, k ∉ s.armed
  nodup : (s.asked ++ s.taken).Nodup
  todo : ∀ r ∈ s.round, r.todo <:+ r.taken
  now : ∀ r ∈ s.round, r.now ≤ s.clock
  due : ∀ r ∈ s.round, ∀ k ∈ r.taken, ∀ a, s.alarms k = some a → a.due ≤ r.now

end Service

section

variable [Preorder τ] {next : τ → π → τ} {s t : Service κ τ π} {k : κ} {a : Alarm τ π}
  {l : Label κ τ π} {r : Round κ τ}

theorem placed_init (c : τ) : Placed (init c : Service κ τ π) := by
  refine ⟨?_, ?_, ?_, ?_, ?_, ?_, ?_⟩ <;> simp [init, asked, taken]

omit [Preorder τ] in
theorem mem_taken (hr : s.round = some r) : k ∈ s.taken ↔ k ∈ r.taken := by
  rw [taken, hr]

/-- A key that is not used is nowhere. -/
theorem Service.Placed.fresh (h : Placed s) (hk : k ∉ s.used) :
    s.alarms k = none ∧ k ∉ s.armed ∧ k ∉ s.asked ++ s.taken := by
  have hnone : s.alarms k = none := by
    cases ha : s.alarms k with
    | none => rfl
    | some a => exact absurd (h.used k a ha) hk
  have hlive := h.live k
  rw [hnone] at hlive
  simp only [Option.isSome_none, Bool.false_eq_true, false_iff, not_or] at hlive
  exact ⟨hnone, hlive⟩

/-- The clock may go on. -/
theorem Service.Placed.at (h : Placed s) {c : τ} (hc : s.clock ≤ c) : Placed { s with clock := c } :=
  ⟨h.used, h.live, h.apart, h.nodup, h.todo, fun r hr => (h.now r hr).trans hc, h.due⟩

theorem placed_set (h : Placed s) (hk : k ∉ s.used) : Placed ((s.create k a).arm k) := by
  obtain ⟨hnone, -, haway⟩ := h.fresh hk
  refine ⟨?_, ?_, ?_, h.nodup, h.todo, h.now, ?_⟩
  · intro j b hj
    by_cases hjk : j = k
    · exact Set.mem_insert_iff.mpr (Or.inl hjk)
    · exact Set.mem_insert_of_mem _ (h.used j b ((Function.update_of_ne hjk _ _).symm.trans hj))
  · intro j
    by_cases hjk : j = k
    · subst hjk
      simp [create, arm]
    · show (update s.alarms k (some a) j).isSome ↔ j ∈ insert k s.armed ∨ _
      rw [Function.update_of_ne hjk, h.live j, Set.mem_insert_iff, or_iff_right hjk]
      exact Iff.rfl
  · intro j hj hja
    rcases Set.mem_insert_iff.mp hja with rfl | hja
    · exact haway hj
    · exact h.apart j hj hja
  · intro r hr j hj b hb
    have hjk : j ≠ k := by
      rintro rfl
      exact haway (List.mem_append_right _ ((mem_taken hr).mpr hj))
    exact h.due r hr j hj b ((Function.update_of_ne hjk _ _).symm.trans hb)

theorem placed_ask (h : Placed s) (hk : k ∉ s.used) :
    Placed ((s.create k a).push (.set k)) := by
  obtain ⟨hnone, harmed, haway⟩ := h.fresh hk
  have hperm : (((s.create k a).push (.set k)).asked ++ s.taken).Perm
      (k :: (s.asked ++ s.taken)) := by
    have hasked : ((s.create k a).push (.set k)).asked = s.asked ++ [k] := by
      simp [asked, push, create, Request.added]
    rw [hasked, List.append_assoc]
    exact List.perm_middle
  refine ⟨?_, ?_, ?_, ?_, h.todo, h.now, ?_⟩
  · intro j b hj
    by_cases hjk : j = k
    · exact Set.mem_insert_iff.mpr (Or.inl hjk)
    · exact Set.mem_insert_of_mem _ (h.used j b ((Function.update_of_ne hjk _ _).symm.trans hj))
  · intro j
    show _ ↔ j ∈ s.armed ∨ j ∈ _ ++ s.taken
    rw [hperm.mem_iff, List.mem_cons]
    by_cases hjk : j = k
    · subst hjk
      simp [create, push]
    · show (update s.alarms k (some a) j).isSome ↔ _
      rw [Function.update_of_ne hjk, h.live j, or_iff_right hjk]
  · intro j hj
    rcases List.mem_cons.mp (hperm.mem_iff.mp hj) with rfl | hj
    · exact harmed
    · exact h.apart j hj
  · exact hperm.nodup_iff.mpr (List.nodup_cons.mpr ⟨haway, h.nodup⟩)
  · intro r hr j hj b hb
    have hjk : j ≠ k := by
      rintro rfl
      exact haway (List.mem_append_right _ ((mem_taken hr).mpr hj))
    exact h.due r hr j hj b ((Function.update_of_ne hjk _ _).symm.trans hb)

theorem placed_drop (h : Placed s) (k : κ) : Placed (s.drop k) := by
  unfold drop
  split
  · next hk =>
    have haway : k ∉ s.asked ++ s.taken := fun hm => h.apart k hm hk
    refine ⟨?_, ?_, fun j hj hja => h.apart j hj hja.1, h.nodup, h.todo, h.now, ?_⟩
    · intro j b hj
      have hjk : j ≠ k := by
        rintro rfl
        simp at hj
      exact h.used j b ((Function.update_of_ne hjk _ _).symm.trans hj)
    · intro j
      by_cases hjk : j = k
      · subst hjk
        simpa [asked, taken] using haway
      · simpa [hjk, asked, taken] using h.live j
    · intro r hr j hj b hb
      have hjk : j ≠ k := by
        rintro rfl
        simp at hb
      exact h.due r hr j hj b ((Function.update_of_ne hjk _ _).symm.trans hb)
  · cases hr : s.round with
    | none => exact ⟨h.used, by simpa [taken, hr, asked] using h.live,
        by simpa [taken, hr, asked] using h.apart, by simpa [taken, hr, asked] using h.nodup,
        by simp, by simp, by simp⟩
    | some r =>
      have hlive := h.live
      have hapart := h.apart
      have hnodup := h.nodup
      simp only [taken, hr] at hlive hapart hnodup
      refine ⟨h.used, hlive, hapart, hnodup, ?_, ?_, ?_⟩
      · rintro q ⟨⟩
        exact h.todo r hr
      · rintro q ⟨⟩
        exact h.now r hr
      · rintro q ⟨⟩
        exact h.due r hr

theorem placed_answer (h : Placed s) {q : Request κ} {qs : List (Request κ)}
    (hq : s.inbox = q :: qs) : Placed ({ s with inbox := qs }.answer q) := by
  cases q with
  | set k =>
    have hasked : s.asked = k :: { s with inbox := qs }.asked := by simp [asked, hq, Request.added]
    have hlive := h.live
    have hapart := h.apart
    have hnodup := h.nodup
    rw [hasked, List.cons_append] at hlive hapart hnodup
    obtain ⟨hk, hnodup⟩ := List.nodup_cons.mp hnodup
    refine ⟨h.used, ?_, ?_, hnodup, h.todo, h.now, h.due⟩
    · intro j
      show (s.alarms j).isSome ↔ j ∈ insert k s.armed ∨ _
      rw [hlive j, List.mem_cons, Set.mem_insert_iff, or_assoc, or_left_comm]
      exact Iff.rfl
    · intro j hj hja
      rcases Set.mem_insert_iff.mp hja with rfl | hja
      · exact hk hj
      · exact hapart j (List.mem_cons_of_mem k hj) hja
  | cancel k =>
    have hasked : { s with inbox := qs }.asked = s.asked := by
      rw [asked, asked, hq]
      rfl
    refine placed_drop (s := { s with inbox := qs }) ⟨h.used, ?_, ?_, ?_, h.todo, h.now, h.due⟩ k
    · rw [hasked]
      exact h.live
    · rw [hasked]
      exact h.apart
    · rw [hasked]
      exact h.nodup

theorem placed_start (h : Placed s) (hn : s.round = none) {ks : List κ} (hnd : ks.Nodup)
    (hks : ∀ k, k ∈ ks ↔ k ∈ s.armed ∧ ∃ a, s.alarms k = some a ∧ a.due ≤ s.clock) :
    Placed (s.start ks) := by
  have haway : ∀ j, j ∈ s.asked ++ s.taken ↔ j ∈ s.asked := by simp [taken, hn]
  have hdis : ∀ j ∈ s.asked, j ∉ ks := fun j hj hm =>
    h.apart j ((haway j).mpr hj) ((hks j).mp hm).1
  refine ⟨h.used, ?_, ?_, ?_, ?_, ?_, ?_⟩
  · intro j
    rw [show (s.start ks).alarms = s.alarms from rfl, h.live j, haway]
    show _ ↔ j ∈ s.armed \ {k | k ∈ ks} ∨ j ∈ s.asked ++ ks
    have := hks j
    simp only [Set.mem_sdiff, Set.mem_ofPred_eq, List.mem_append]
    tauto
  · intro j hj hja
    rcases List.mem_append.mp hj with hj | hj
    · exact h.apart j ((haway j).mpr hj) hja.1
    · exact hja.2 hj
  · show (s.asked ++ ks).Nodup
    exact List.nodup_append.mpr ⟨(List.nodup_append.mp h.nodup).1, hnd,
      fun j hj i hi hji => hdis j hj (hji ▸ hi)⟩
  · rintro r ⟨⟩
    exact List.suffix_rfl
  · rintro r ⟨⟩
    exact le_rfl
  · rintro r ⟨⟩ j hj b hb
    obtain ⟨-, a, ha, hdue⟩ := (hks j).mp hj
    obtain rfl := Option.some.inj (ha.symm.trans hb)
    exact hdue

theorem placed_fire (h : Placed s) {ks : List κ} (hr : s.round = some r) (ht : r.todo = k :: ks) :
    Placed { s with round := some { r with todo := ks } } := by
  have hlive := h.live
  have hapart := h.apart
  have hnodup := h.nodup
  simp only [taken, hr] at hlive hapart hnodup
  refine ⟨h.used, hlive, hapart, hnodup, ?_, ?_, ?_⟩
  · rintro q ⟨⟩
    exact (ht ▸ List.suffix_cons k ks).trans (h.todo r hr)
  · rintro q ⟨⟩
    exact h.now r hr
  · rintro q ⟨⟩
    exact h.due r hr

theorem placed_finish (h : Placed s) (hr : s.round = some r) : Placed (s.finish next r) := by
  have hmem : ∀ j, j ∈ s.asked ++ s.taken ↔ j ∈ s.asked ∨ j ∈ r.taken := by simp [taken, hr]
  have hdis := (List.nodup_append.mp h.nodup).2.2
  refine ⟨?_, ?_, ?_, ?_, ?_, ?_, ?_⟩
  · intro j b hj
    simp only [finish] at hj
    split at hj
    · obtain ⟨a, ha, -⟩ := Option.bind_eq_some_iff.mp hj
      exact h.used j a ha
    · exact h.used j b hj
  · intro j
    show _ ↔ j ∈ s.armed ∪ _ ∨ j ∈ s.asked ++ []
    rw [List.append_nil, Set.mem_union, Set.mem_ofPred_eq]
    have hj := h.live j
    rw [hmem j] at hj
    have hapart := h.apart j
    rw [hmem j] at hapart
    by_cases hjr : j ∈ r.taken
    · have hna : j ∉ s.asked := fun hm => hdis j hm j ((mem_taken hr).mpr hjr) rfl
      simp only [hjr, true_and, hna, or_false, hapart (Or.inr hjr), false_or, finish]
    · simp only [hjr, or_false] at hj
      simp only [finish, hjr, if_false, false_and, or_false]
      exact hj
  · intro j hj hja
    have hj' : j ∈ s.asked := by simpa [asked, taken, finish] using hj
    rcases hja with hja | ⟨hjr, -⟩
    · exact h.apart j ((hmem j).mpr (Or.inl hj')) hja
    · exact hdis j hj' j ((mem_taken hr).mpr hjr) rfl
  · show (s.asked ++ []).Nodup
    rw [List.append_nil]
    exact (List.nodup_append.mp h.nodup).1
  · rintro q ⟨⟩
  · rintro q ⟨⟩
  · rintro q ⟨⟩

theorem placed_step (h : Placed s) (hst : Step next s l t) : Placed t := by
  cases hst with
  | set k a c hk hc => exact (placed_set h hk).at hc
  | ask k a hk => exact placed_ask h hk
  | cancel k => exact placed_drop h k
  | askCancel k =>
    have hasked : (s.push (.cancel k)).asked = s.asked := by simp [asked, push, Request.added]
    exact ⟨h.used, hasked ▸ h.live, hasked ▸ h.apart, hasked ▸ h.nodup, h.todo, h.now, h.due⟩
  | answer q qs c hq hn hc =>
    refine (placed_answer h hq).at (le_trans (le_of_eq ?_) hc)
    cases q with
    | set k => rfl
    | cancel k => exact drop_clock _ k
  | start ks c hn hnd hks hord hc => exact (placed_start h hn hnd hks).at hc
  | fire k r ks hr ht => exact placed_fire h hr ht
  | finish r c hr ht hc => exact (placed_finish h hr).at hc
  | idle c hc => exact h.at hc

end

end Alarms
