import SimpleNet.Lib.Alarms
import Mathlib.Algebra.Order.Group.Basic

/-!
# The firings of an alarm

What a run of the service does with one alarm.  `fate_step` is the inversion: a step leaves the alarm
as it is, cancels it, fires it, or ends the round in which it was fired.

`not_early`: an alarm whose period keeps the distance `g` does not fire for the `m + 1`-st time
before `due + m • g`.  `fires_due`: an alarm that is due when a round starts fires in it.
`fired_once`: a single alarm that is not cancelled has fired exactly once after such a round.
-/

open Function (update)
open scoped Classical

namespace Alarms

open Service

variable {κ τ π : Type*}

section

variable [Preorder τ] {next : τ → π → τ} {s t : Service κ τ π} {k : κ} {a : Alarm τ π}
  {l : Label κ τ π} {r : Round κ τ}

/-! ### What becomes of one alarm -/

/-- What a step does to the alarm of a key that is in use. -/
inductive Fate (next : τ → π → τ) (s : Service κ τ π) (k : κ) (l : Label κ τ π)
    (t : Service κ τ π) : Prop
  | quiet (hl : l.fired ≠ some k) (ha : t.alarms k = s.alarms k) (hf : t.Fired k ↔ s.Fired k)
  | cancelled (hl : l.fired ≠ some k) (hc : l.cancelled = some k) (ha : t.alarms k = none)
  | fired (hl : l.fired = some k) (ha : t.alarms k = s.alarms k) (hs : ¬ s.Fired k)
    (ht : t.Fired k) (b : Alarm τ π) (hb : s.alarms k = some b) (hdue : b.due ≤ t.clock)
  | finished (hl : l.fired ≠ some k) (r : Round κ τ) (hr : s.round = some r) (hs : s.Fired k)
    (ht : ¬ t.Fired k) (b : Alarm τ π) (hb : s.alarms k = some b) (hdue : b.due ≤ r.now)
    (hnow : r.now ≤ t.clock) (ha : t.alarms k = again next r k b)

theorem clock_step (hst : Step next s l t) : s.clock ≤ t.clock := by
  cases hst with
  | set k a c hk hc => exact hc
  | ask k a hk => exact le_rfl
  | cancel k => exact (drop_clock s k).ge
  | askCancel k => exact le_rfl
  | answer q qs c hq hn hc => exact hc
  | start ks c hn hnd hks hord hc => exact hc
  | fire k r ks hr ht => exact le_rfl
  | finish r c hr ht hc => exact hc
  | idle c hc => exact hc

theorem used_step (hst : Step next s l t) (hk : k ∈ s.used) : k ∈ t.used := by
  cases hst with
  | set j a c hj hc => exact Set.mem_insert_of_mem j hk
  | ask j a hj => exact Set.mem_insert_of_mem j hk
  | cancel j => exact drop_used s j ▸ hk
  | askCancel j => exact hk
  | answer q qs c hq hn hc =>
    cases q with
    | set j => exact hk
    | cancel j => exact (drop_used { s with inbox := qs } j).symm ▸ hk
  | start ks c hn hnd hks hord hc => exact hk
  | fire j r ks hr ht => exact hk
  | finish r c hr ht hc => exact hk
  | idle c hc => exact hk

theorem fate_drop {j : κ} (hl : l.fired ≠ some k) (hc : l.cancelled = some j) :
    Fate next s k l (s.drop j) := by
  unfold drop
  split
  · by_cases hkj : k = j
    · subst hkj
      exact .cancelled hl hc (by simp)
    · exact .quiet hl (Function.update_of_ne hkj _ _) Iff.rfl
  · refine .quiet hl rfl ?_
    cases hr : s.round with
    | none => simp [Fired, hr]
    | some r => simp [Fired, hr]

theorem Fate.at {c : τ} (h : Fate next s k l t) (hc : t.clock ≤ c) :
    Fate next s k l { t with clock := c } := by
  cases h with
  | quiet hl ha hf => exact .quiet hl ha hf
  | cancelled hl hcan ha => exact .cancelled hl hcan ha
  | fired hl ha hs ht b hb hdue => exact .fired hl ha hs ht b hb (hdue.trans hc)
  | finished hl r hr hs ht b hb hdue hnow ha =>
    exact .finished hl r hr hs ht b hb hdue (hnow.trans hc) ha

theorem fate_fire {j : κ} {ks : List κ} (h : Placed s) (hr : s.round = some r)
    (ht : r.todo = j :: ks) : Fate next s k (.fire j) { s with round := some { r with todo := ks } } := by
  have hsuf := h.todo r hr
  rw [ht] at hsuf
  by_cases hkj : k = j
  · subst hkj
    have hmem : k ∈ r.taken := hsuf.subset List.mem_cons_self
    have hnd : (k :: ks).Nodup := by
      have hn := (List.nodup_append.mp h.nodup).2.1
      rw [taken, hr] at hn
      exact hn.sublist hsuf.sublist
    have hlive : (s.alarms k).isSome :=
      (h.live k).mpr (Or.inr (List.mem_append_right _ ((mem_taken hr).mpr hmem)))
    obtain ⟨b, hb⟩ := Option.isSome_iff_exists.mp hlive
    refine .fired rfl rfl ?_ ⟨_, rfl, hmem, (List.nodup_cons.mp hnd).1⟩ b hb
      ((h.due r hr k hmem b hb).trans (h.now r hr))
    rintro ⟨q, hq, -, hn⟩
    obtain rfl := Option.some.inj (hr.symm.trans hq)
    exact hn (ht ▸ List.mem_cons_self)
  · refine .quiet (fun hl => hkj (Option.some.inj hl).symm) rfl ?_
    simp [Fired, hr, ht, hkj]

theorem fate_finish (h : Placed s) (hr : s.round = some r) (ht : r.todo = []) :
    Fate next s k .finish (s.finish next r) := by
  by_cases hk : k ∈ r.taken
  · have hlive : (s.alarms k).isSome :=
      (h.live k).mpr (Or.inr (List.mem_append_right _ ((mem_taken hr).mpr hk)))
    obtain ⟨b, hb⟩ := Option.isSome_iff_exists.mp hlive
    refine .finished nofun r hr ⟨r, hr, hk, by simp [ht]⟩ ?_ b hb (h.due r hr k hk b hb)
      (h.now r hr) ?_
    · rintro ⟨q, ⟨⟩, -⟩
    · simp [finish, hk, hb]
  · refine .quiet nofun (by simp [finish, hk]) ?_
    simp [Fired, hr, hk, finish]

/-- **Inversion.**  What a step does to an alarm. -/
theorem fate_step (h : Placed s) (hk : k ∈ s.used) (hst : Step next s l t) : Fate next s k l t := by
  have hne : ∀ {j}, j ∉ s.used → k ≠ j := by
    rintro j hj rfl
    exact hj hk
  cases hst with
  | set j a c hj hc => exact .quiet nofun (Function.update_of_ne (hne hj) _ _) Iff.rfl
  | ask j a hj => exact .quiet nofun (Function.update_of_ne (hne hj) _ _) Iff.rfl
  | cancel j => exact fate_drop nofun rfl
  | askCancel j => exact .quiet nofun rfl Iff.rfl
  | answer q qs c hq hn hc =>
    cases q with
    | set j => exact .quiet nofun rfl Iff.rfl
    | cancel j =>
      have hd : Fate next { s with inbox := qs } k (.answer (.cancel j))
        (({ s with inbox := qs } : Service κ τ π).drop j) := fate_drop nofun rfl
      cases hd with
      | quiet hl ha hf => exact .quiet hl ha hf
      | cancelled hl hcan ha => exact .cancelled hl hcan ha
      | fired hl => cases hl
      | finished hl r hr => cases hn.symm.trans hr
  | start ks c hn hnd hks hord hc =>
    refine .quiet nofun rfl ?_
    simp [Fired, hn, start]
  | fire j r ks hr ht => exact fate_fire h hr ht
  | finish r c hr ht hc => exact (fate_finish h hr ht).at hc
  | idle c hc => exact .quiet nofun rfl Iff.rfl

/-- What is noted in a round was cancelled. -/
theorem dropped_step (hst : Step next s l t) {q : Round κ τ} (hq : t.round = some q)
    (hk : k ∈ q.dropped) : l.cancelled = some k ∨ ∃ r, s.round = some r ∧ k ∈ r.dropped := by
  have hdrop : ∀ {u : Service κ τ π} {j}, (u.drop j).round = some q → l.cancelled = some j →
      u.round = s.round → l.cancelled = some k ∨ ∃ r, s.round = some r ∧ k ∈ r.dropped := by
    intro u j hq hl hu
    unfold drop at hq
    split at hq
    · exact Or.inr ⟨q, hu.symm.trans hq, hk⟩
    · obtain ⟨r, hr, rfl⟩ := Option.map_eq_some_iff.mp hq
      rcases Set.mem_insert_iff.mp hk with rfl | hk
      · exact Or.inl hl
      · exact Or.inr ⟨r, hu.symm.trans hr, hk⟩
  cases hst with
  | set j a c hj hc => exact Or.inr ⟨q, hq, hk⟩
  | ask j a hj => exact Or.inr ⟨q, hq, hk⟩
  | cancel j => exact hdrop hq rfl rfl
  | askCancel j => exact Or.inr ⟨q, hq, hk⟩
  | answer p ps c hp hn hc =>
    cases p with
    | set j => exact Or.inr ⟨q, hq, hk⟩
    | cancel j => exact hdrop (u := { s with inbox := ps }) hq rfl rfl
  | start ks c hn hnd hks hord hc =>
    obtain rfl := Option.some.inj hq
    exact absurd hk (Set.notMem_empty k)
  | fire j r ks hr ht =>
    obtain rfl := Option.some.inj hq
    exact Or.inr ⟨r, hr, hk⟩
  | finish r c hr ht hc => cases hq
  | idle c hc => exact Or.inr ⟨q, hq, hk⟩

/-! ### Firings -/

/-- The keys fired, in order. -/
def fired (ls : List (Label κ τ π)) : List κ := ls.filterMap Label.fired

/-- The alarm has been cancelled. -/
def Cancelled (k : κ) (ls : List (Label κ τ π)) : Prop := k ∈ ls.filterMap Label.cancelled

omit [Preorder τ] in
theorem count_fired_snoc [DecidableEq κ] (ls : List (Label κ τ π)) (l : Label κ τ π) (k : κ) :
    (fired (ls ++ [l])).count k = (fired ls).count k + if l.fired = some k then 1 else 0 := by
  rw [fired, List.filterMap_append, List.count_append]
  cases hl : l.fired with
  | none => simp [fired, hl]
  | some j => simp [fired, hl, List.count_singleton]

/-- The alarm `a` of a key after `n` firings. -/
structure Tally (k : κ) (a : Alarm τ π) (s : Service κ τ π) (n : Nat) (cancelled : Prop) : Prop where
  used : k ∈ s.used
  period : ∀ b, s.alarms k = some b → b.period = a.period
  dropped : ∀ r ∈ s.round, k ∈ r.dropped → cancelled
  kept : ¬ cancelled → a.period.isSome → (s.alarms k).isSome
  single : a.period = none → ∀ b, s.alarms k = some b → b = a ∧ (s.Fired k → n = 1) ∧
    (¬ s.Fired k → n = 0)
  gone : a.period = none → s.alarms k = none → n ≤ 1 ∧ (¬ cancelled → n = 1)

theorem Tally.step [DecidableEq κ] {n : Nat} {c c' : Prop} (h : Tally k a s n c) (hs : Placed s)
    (hst : Step next s l t) (hc : c' ↔ c ∨ l.cancelled = some k) :
    Tally k a t (n + if l.fired = some k then 1 else 0) c' := by
  have hused := used_step hst h.used
  have hdropped : ∀ r ∈ t.round, k ∈ r.dropped → c' := by
    intro q hq hk
    refine hc.mpr ?_
    rcases dropped_step hst hq hk with hl | ⟨r, hr, hk⟩
    · exact Or.inr hl
    · exact Or.inl (h.dropped r hr hk)
  have hkeep : ¬ c' → ¬ c := fun hn hp => hn (hc.mpr (Or.inl hp))
  cases fate_step hs h.used hst with
  | quiet hl ha hf =>
    rw [if_neg hl, Nat.add_zero]
    refine ⟨hused, ha ▸ h.period, hdropped, fun hn => ha ▸ h.kept (hkeep hn), ?_, ?_⟩
    · rw [ha, hf]
      exact h.single
    · rw [ha]
      exact fun hp hb => (h.gone hp hb).imp_right fun hg hn => hg (hkeep hn)
  | cancelled hl hcan ha =>
    have hc' : c' := hc.mpr (Or.inr hcan)
    rw [if_neg hl, Nat.add_zero]
    refine ⟨hused, ?_, hdropped, fun hn => absurd hc' hn, ?_, ?_⟩
    · intro b hb
      rw [ha] at hb
      cases hb
    · intro _ b hb
      rw [ha] at hb
      cases hb
    · intro hp _
      refine ⟨?_, fun hn => absurd hc' hn⟩
      cases hb : s.alarms k with
      | none => exact (h.gone hp hb).1
      | some b =>
        obtain ⟨-, hf, hnf⟩ := h.single hp b hb
        by_cases hfd : s.Fired k
        · exact (hf hfd).le
        · rw [hnf hfd]
          exact Nat.zero_le 1
  | fired hl ha hsf htf b hb hdue =>
    rw [if_pos hl]
    refine ⟨hused, ha ▸ h.period, hdropped, fun hn => ha ▸ h.kept (hkeep hn), ?_, ?_⟩
    · intro hp d hd
      rw [ha] at hd
      obtain ⟨hda, -, hn⟩ := h.single hp d hd
      exact ⟨hda, fun _ => by rw [hn hsf], fun hnf => absurd htf hnf⟩
    · intro _ hd
      rw [ha, hb] at hd
      cases hd
  | finished hl r hr hsf htf b hb hdue hnow ha =>
    rw [if_neg hl, Nat.add_zero]
    refine ⟨hused, ?_, hdropped, ?_, ?_, ?_⟩
    · intro d hd
      rw [ha, again] at hd
      split at hd
      · cases hd
      · obtain ⟨p, hp, rfl⟩ := Option.map_eq_some_iff.mp hd
        exact hp.symm.trans (h.period b hb)
    · -- what repeats is dropped only if it was cancelled
      intro hn hrep
      rw [ha, again, if_neg fun hk => hkeep hn (h.dropped r hr hk), h.period b hb, Option.isSome_map]
      exact hrep
    · intro hp d hd
      rw [ha, again, h.period b hb, hp] at hd
      split at hd
      · cases hd
      · cases hd
    · intro hp _
      have hone := (h.single hp b hb).2.1 hsf
      exact ⟨hone.le, fun _ => hone⟩

omit [Preorder τ] in
theorem mem_filterMap_snoc {β : Type*} {f : Label κ τ π → Option β} {ls : List (Label κ τ π)} {b : β} :
    b ∈ (ls ++ [l]).filterMap f ↔ b ∈ ls.filterMap f ∨ f l = some b := by
  simp

omit [Preorder τ] in
theorem cancelled_snoc {ls : List (Label κ τ π)} :
    Cancelled k (ls ++ [l]) ↔ Cancelled k ls ∨ l.cancelled = some k :=
  mem_filterMap_snoc

/-- A new alarm. -/
theorem created_step (h : Placed s) (hst : Step next s l t) (hl : l.created = some (k, a)) :
    k ∉ s.used ∧ k ∈ t.used ∧ t.alarms k = some a ∧ ¬ t.Fired k ∧ t.round = s.round := by
  have hnot : k ∉ s.used → ¬ s.Fired k := by
    rintro hk ⟨r, hr, hm, -⟩
    exact (h.fresh hk).2.2 (List.mem_append_right _ ((mem_taken hr).mpr hm))
  cases hst with
  | set j b c hj hc =>
    cases hl
    exact ⟨hj, Set.mem_insert k s.used, by simp [create, arm], hnot hj, rfl⟩
  | ask j b hj =>
    cases hl
    exact ⟨hj, Set.mem_insert k s.used, by simp [create, push], hnot hj, rfl⟩
  | cancel j => cases hl
  | askCancel j => cases hl
  | answer q qs c hq hn hc => cases hl
  | start ks c hn hnd hks hord hc => cases hl
  | fire j r ks hr ht => cases hl
  | finish r c hr ht hc => cases hl
  | idle c hc => cases hl

theorem used_of_fired (h : Placed s) (hst : Step next s l t) (hl : l.fired = some k) :
    k ∈ s.used := by
  cases hst with
  | fire j r ks hr ht =>
    cases hl
    have hm : k ∈ r.taken := (h.todo r hr).subset (ht ▸ List.mem_cons_self)
    have hlive := (h.live k).mpr (Or.inr (List.mem_append_right _ ((mem_taken hr).mpr hm)))
    obtain ⟨b, hb⟩ := Option.isSome_iff_exists.mp hlive
    exact h.used k b hb
  | set j b c hj hc => cases hl
  | ask j b hj => cases hl
  | cancel j => cases hl
  | askCancel j => cases hl
  | answer q qs c hq hn hc => cases hl
  | start ks c hn hnd hks hord hc => cases hl
  | finish r c hr ht hc => cases hl
  | idle c hc => cases hl

section

variable {c : τ} {ls : List (Label κ τ π)}

theorem placed_run (h : Steps.Runs (Step next) (init c) ls s) : Placed s :=
  h.invariant (fun _ _ _ => placed_step) (placed_init c)

/-- A key that is not used has not been fired. -/
theorem not_fired_run [DecidableEq κ] (h : Steps.Runs (Step next) (init c) ls s) (hk : k ∉ s.used) :
    (fired ls).count k = 0 := by
  induction h with
  | nil => rfl
  | snoc h hst ih =>
    rw [count_fired_snoc, ih fun hu => hk (used_step hst hu), if_neg]
    exact fun hl => hk (used_step hst (used_of_fired (placed_run h) hst hl))

theorem dropped_run (h : Steps.Runs (Step next) (init c) ls s) :
    ∀ r ∈ s.round, k ∈ r.dropped → Cancelled k ls := by
  induction h with
  | nil => exact nofun
  | snoc h hst ih =>
    intro q hq hk
    refine cancelled_snoc.mpr ?_
    rcases dropped_step hst hq hk with hl | ⟨r, hr, hk⟩
    · exact Or.inr hl
    · exact Or.inl (ih r hr hk)

theorem tally_run [DecidableEq κ] (h : Steps.Runs (Step next) (init c) ls s)
    (hk : (k, a) ∈ ls.filterMap Label.created) :
    Tally k a s ((fired ls).count k) (Cancelled k ls) := by
  induction h with
  | nil => cases hk
  | @snoc ls s l t h hst ih =>
    rw [count_fired_snoc]
    rcases mem_filterMap_snoc.mp hk with hk | hl
    · exact (ih hk).step (placed_run h) hst cancelled_snoc
    · obtain ⟨hnew, hused, ha, hf, hround⟩ := created_step (placed_run h) hst hl
      have hnf : l.fired ≠ some k := fun hf => hnew (used_of_fired (placed_run h) hst hf)
      rw [if_neg hnf, not_fired_run h hnew]
      refine ⟨hused, ?_, ?_, fun _ _ => ha ▸ rfl, ?_, ?_⟩
      · intro b hb
        rw [ha] at hb
        exact congrArg Alarm.period (Option.some.inj hb).symm
      · intro r hr hd
        exact cancelled_snoc.mpr (Or.inl (dropped_run h r (hround ▸ hr) hd))
      · intro _ b hb
        rw [ha] at hb
        exact ⟨(Option.some.inj hb).symm, fun hp => absurd hp hf, fun _ => rfl⟩
      · intro _ hb
        rw [ha] at hb
        cases hb

/-- A single alarm does not fire twice. -/
theorem fired_le_one [DecidableEq κ] (h : Steps.Runs (Step next) (init c) ls s)
    (hk : (k, a) ∈ ls.filterMap Label.created) (hp : a.period = none) :
    (fired ls).count k ≤ 1 := by
  have ht := tally_run h hk
  cases hb : s.alarms k with
  | none => exact (ht.gone hp hb).1
  | some b =>
    obtain ⟨-, hf, hnf⟩ := ht.single hp b hb
    by_cases hfd : s.Fired k
    · exact (hf hfd).le
    · rw [hnf hfd]
      exact Nat.zero_le 1

/-- **No alarm is lost.**  One that is not cancelled is there until it has fired, and for ever if it
repeats. -/
theorem not_lost [DecidableEq κ] (h : Steps.Runs (Step next) (init c) ls s)
    (hk : (k, a) ∈ ls.filterMap Label.created) (hn : ¬ Cancelled k ls)
    (hgone : s.alarms k = none) : a.period = none ∧ (fired ls).count k = 1 := by
  have ht := tally_run h hk
  have hp : a.period = none := by
    cases hp : a.period with
    | none => rfl
    | some p =>
      have := ht.kept hn (by rw [hp]; rfl)
      rw [hgone] at this
      cases this
  exact ⟨hp, (ht.gone hp hgone).2 hn⟩

/-! ### Rounds -/

theorem taken_step (hst : Step next s l t) (hk : k ∈ s.taken) : k ∈ t.taken ∨ s.Fired k := by
  have hdrop : ∀ {u : Service κ τ π} {j}, k ∈ u.taken → k ∈ (u.drop j).taken := by
    intro u j hk
    unfold drop
    split
    · exact hk
    · cases hr : u.round with
      | none => simp [taken, hr] at hk
      | some r => simpa [taken, hr] using hk
  cases hst with
  | set j b c hj hc => exact Or.inl hk
  | ask j b hj => exact Or.inl hk
  | cancel j => exact Or.inl (hdrop hk)
  | askCancel j => exact Or.inl hk
  | answer q qs c hq hn hc =>
    rw [taken, hn] at hk
    cases hk
  | start ks c hn hnd hks hord hc =>
    rw [taken, hn] at hk
    cases hk
  | fire j r ks hr ht =>
    rw [taken, hr] at hk
    exact Or.inl hk
  | finish r c hr ht hc =>
    rw [taken, hr] at hk
    exact Or.inr ⟨r, hr, hk, by simp [ht]⟩
  | idle c hc => exact Or.inl hk

/-- **No alarm is skipped.**  One that is armed and due when a round starts has fired once more
when a round has ended, also when it was cancelled meanwhile. -/
theorem fires_due {u v w : Service κ τ π} {ks : List κ} {ms : List (Label κ τ π)} (hs : Placed s)
    (hk : k ∈ s.armed) (ha : s.alarms k = some a) (hdue : a.due ≤ s.clock)
    (hu : Step next s (.start ks) u) (hv : Steps.Runs (Step next) u ms v)
    (hw : Step next v .finish w) : k ∈ fired ms := by
  have hmem : k ∈ u.taken ∧ ¬ u.Fired k := by
    cases hu with
    | start ks c hn hnd hks hord hc =>
      have hm : k ∈ ks := (hks k).mpr ⟨hk, a, ha, hdue⟩
      refine ⟨hm, ?_⟩
      rintro ⟨r, ⟨⟩, -, hnt⟩
      exact hnt hm
  have hrun : Placed v ∧ k ∈ v.used ∧ (k ∈ fired ms ∨ k ∈ v.taken ∧ ¬ v.Fired k) := by
    clear hw
    induction hv with
    | nil => exact ⟨placed_step hs hu, used_step hu (hs.used k a ha), Or.inr hmem⟩
    | @snoc ms v l w hv hl ih =>
      obtain ⟨hp, hused, ih⟩ := ih
      refine ⟨placed_step hp hl, used_step hl hused, ?_⟩
      rcases ih with hf | ⟨ht, hnf⟩
      · exact Or.inl (mem_filterMap_snoc.mpr (Or.inl hf))
      · by_cases hlk : l.fired = some k
        · exact Or.inl (mem_filterMap_snoc.mpr (Or.inr hlk))
        · refine Or.inr ⟨(taken_step hl ht).resolve_right hnf, ?_⟩
          cases fate_step hp hused hl with
          | quiet _ _ hf => exact fun h => hnf (hf.mp h)
          | cancelled _ _ ha =>
            -- it would have been armed
            rintro ⟨r, hr, hm, -⟩
            have hlive := ((placed_step hp hl).live k).mpr
              (Or.inr (List.mem_append_right _ ((mem_taken hr).mpr hm)))
            rw [ha] at hlive
            cases hlive
          | fired hl => exact absurd hl hlk
          | finished _ _ _ hf => exact absurd hf hnf
  obtain ⟨-, -, hf | ⟨ht, hnf⟩⟩ := hrun
  · exact hf
  · cases hw with
    | finish r c hr hnil hc =>
      rw [taken, hr] at ht
      exact absurd ⟨r, hr, ht, by simp [hnil]⟩ hnf

/-- A single alarm that is not cancelled has fired exactly once when a round has ended that started
when it was due. -/
theorem fired_once [DecidableEq κ] {u v w : Service κ τ π} {ks : List κ} {ms : List (Label κ τ π)}
    (h : Steps.Runs (Step next) (init c) ls s) (hk : (k, a) ∈ ls.filterMap Label.created)
    (hp : a.period = none) (hn : ¬ Cancelled k ls) (hask : k ∉ s.asked) (hdue : a.due ≤ s.clock)
    (hu : Step next s (.start ks) u) (hv : Steps.Runs (Step next) u ms v)
    (hw : Step next v .finish w) : (fired (ls ++ .start ks :: (ms ++ [.finish]))).count k = 1 := by
  have hrun : Steps.Runs (Step next) (init c) (ls ++ .start ks :: (ms ++ [.finish])) w :=
    h.append (.cons hu (hv.snoc hw))
  have hle : (fired (ls ++ .start ks :: (ms ++ [.finish]))).count k ≤ 1 :=
    fired_le_one hrun (by rw [List.filterMap_append]; exact List.mem_append_left _ hk) hp
  have hsum : (fired (ls ++ .start ks :: (ms ++ [.finish]))).count k =
      (fired ls).count k + (fired ms).count k := by
    rw [fired, List.filterMap_append, List.filterMap_cons_none rfl, List.filterMap_append,
      List.filterMap_cons_none rfl, List.filterMap_nil, List.append_nil, List.count_append]
    rfl
  have hs := placed_run h
  have hge : 1 ≤ (fired ls).count k + (fired ms).count k := by
    cases hb : s.alarms k with
    | none =>
      have hone := (not_lost h hk hn hb).2
      omega
    | some b =>
      obtain ⟨rfl, -⟩ := (tally_run h hk).single hp b hb
      have harmed : k ∈ s.armed := by
        have hround : s.round = none := by
          cases hu with
          | start ks c hn => exact hn
        have hlive := (hs.live k).mp (by rw [hb]; rfl)
        simpa [taken, hround, hask] using hlive
      have hpos := List.count_pos_iff.mpr (fires_due hs harmed hb hdue hu hv hw)
      omega
  omega

end

end

/-! ### The times of the firings -/

section

variable [AddMonoid τ] [Preorder τ] [AddRightMono τ] {next : τ → π → τ} {s t : Service κ τ π}
  {k : κ} {a : Alarm τ π} {l : Label κ τ π} {g : τ}

/-- The `m + 1`-st firing comes at `due + m • g` or later. -/
structure Spaced (g : τ) (k : κ) (a : Alarm τ π) (s : Service κ τ π) (n : Nat) : Prop where
  wait : ¬ s.Fired k → ∀ b, s.alarms k = some b → a.due + n • g ≤ b.due
  turn : s.Fired k → ∀ b, s.alarms k = some b → ∃ m, n = m + 1 ∧ a.due + m • g ≤ b.due
  past : ∀ m < n, a.due + m • g ≤ s.clock

theorem Spaced.step [DecidableEq κ] {n : Nat} (h : Spaced g k a s n) (hs : Placed s) (hk : k ∈ s.used)
    (hperiod : ∀ b, s.alarms k = some b → b.period = a.period) (hst : Step next s l t)
    (hg : ∀ p, a.period = some p → ∀ now ≤ t.clock, now + g ≤ next now p) :
    Spaced g k a t (n + if l.fired = some k then 1 else 0) := by
  have hpast : ∀ m < n, a.due + m • g ≤ t.clock := fun m hm =>
    (h.past m hm).trans (clock_step hst)
  cases fate_step hs hk hst with
  | quiet hl ha hf =>
    rw [if_neg hl, Nat.add_zero]
    refine ⟨?_, ?_, hpast⟩
    · rw [ha, hf]
      exact h.wait
    · rw [ha, hf]
      exact h.turn
  | cancelled hl hcan ha =>
    rw [if_neg hl, Nat.add_zero]
    refine ⟨?_, ?_, hpast⟩
    · intro _ b hb
      rw [ha] at hb
      cases hb
    · intro _ b hb
      rw [ha] at hb
      cases hb
  | fired hl ha hsf htf b hb hdue =>
    rw [if_pos hl]
    have hle := h.wait hsf b hb
    refine ⟨fun hn => absurd htf hn, ?_, ?_⟩
    · intro _ d hd
      rw [ha, hb] at hd
      obtain rfl := Option.some.inj hd
      exact ⟨n, rfl, hle⟩
    · intro m hm
      rcases Nat.lt_succ_iff_lt_or_eq.mp hm with hm | rfl
      · exact hpast m hm
      · exact hle.trans hdue
  | finished hl r hr hsf htf b hb hdue hnow ha =>
    rw [if_neg hl, Nat.add_zero]
    refine ⟨?_, fun hf => absurd hf htf, hpast⟩
    intro _ d hd
    rw [ha, again] at hd
    split at hd
    · cases hd
    · obtain ⟨p, hp, rfl⟩ := Option.map_eq_some_iff.mp hd
      obtain ⟨m, rfl, hle⟩ := h.turn hsf b hb
      calc a.due + (m + 1) • g = a.due + m • g + g := by rw [succ_nsmul, add_assoc]
        _ ≤ r.now + g := add_le_add_left (hle.trans hdue) g
        _ ≤ next r.now p := hg p ((hperiod b hb).symm.trans hp) r.now hnow

/-- **No alarm is early.**  If its period keeps the distance `g`, the `m + 1`-st firing comes
`m • g` after the time it was set for, or later. -/
theorem not_early [DecidableEq κ] {c : τ} {ls : List (Label κ τ π)} (h : Steps.Runs (Step next) (init c) ls s)
    (hk : (k, a) ∈ ls.filterMap Label.created)
    (hg : ∀ p, a.period = some p → ∀ now ≤ s.clock, now + g ≤ next now p) :
    Spaced g k a s ((fired ls).count k) := by
  induction h with
  | nil => cases hk
  | @snoc ls s l t h hst ih =>
    rw [count_fired_snoc]
    rcases mem_filterMap_snoc.mp hk with hk | hl
    · have ht := tally_run h hk
      have hs := ih hk fun p hp now hle => hg p hp now (hle.trans (clock_step hst))
      exact hs.step (placed_run h) ht.used ht.period hst hg
    · obtain ⟨hnew, -, ha, hf, -⟩ := created_step (placed_run h) hst hl
      have hnf : l.fired ≠ some k := fun hf => hnew (used_of_fired (placed_run h) hst hf)
      rw [if_neg hnf, not_fired_run h hnew]
      refine ⟨?_, fun hp => absurd hp hf, nofun⟩
      intro _ b hb
      rw [ha] at hb
      obtain rfl := Option.some.inj hb
      rw [Nat.zero_add, zero_nsmul, add_zero]

end

end Alarms
