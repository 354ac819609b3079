import Mathlib.Tactic.Common

/-!
# Bit masks as sets of flags

`e ||| m` sets the flags `m` in `e` and `e &&& ~~~m` clears them.  These lemmas say
what a later test `· &&& k` sees: the flags themselves, or, for flags disjoint from
`m`, what was there before.
-/

namespace Flags

variable {w : Nat} (e m k : BitVec w)

@[simp] theorem set_test : (e ||| m) &&& m = m := by
  ext i hi
  simp only [BitVec.getElem_and, BitVec.getElem_or]
  cases e[i] <;> cases m[i] <;> rfl

@[simp] theorem clear_test : (e &&& ~~~m) &&& m = 0#w := by
  ext i hi
  simp only [BitVec.getElem_and, BitVec.getElem_not, BitVec.getElem_zero]
  cases e[i] <;> cases m[i] <;> rfl

variable {m k}

theorem set_test_of_disjoint (h : m &&& k = 0#w) : (e ||| m) &&& k = e &&& k := by
  ext i hi
  have hi' : (m &&& k)[i] = false := by rw [h, BitVec.getElem_zero]
  simp only [BitVec.getElem_and, BitVec.getElem_or] at hi' ⊢
  cases he : e[i] <;> cases hm : m[i] <;> simp_all

theorem clear_test_of_disjoint (h : m &&& k = 0#w) : (e &&& ~~~m) &&& k = e &&& k := by
  ext i hi
  have hi' : (m &&& k)[i] = false := by rw [h, BitVec.getElem_zero]
  simp only [BitVec.getElem_and, BitVec.getElem_not] at hi' ⊢
  cases he : e[i] <;> cases hm : m[i] <;> simp_all

variable {e}

/-- `e` has no flags but those of `m`. -/
def Within (e m : BitVec w) : Prop := e &&& ~~~m = 0#w

instance : Decidable (Within e m) := inferInstanceAs (Decidable (_ = _))

theorem Within.test_eq_zero (h : Within e m) (hk : m &&& k = 0#w) : e &&& k = 0#w := by
  ext i hi
  have h1 : (e &&& ~~~m)[i] = false := by rw [h, BitVec.getElem_zero]
  have h2 : (m &&& k)[i] = false := by rw [hk, BitVec.getElem_zero]
  simp only [BitVec.getElem_and, BitVec.getElem_not, BitVec.getElem_zero] at h1 h2 ⊢
  cases he : e[i] <;> cases hm : m[i] <;> simp_all

end Flags
