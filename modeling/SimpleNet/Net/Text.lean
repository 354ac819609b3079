import Mathlib.Data.BitVec
import Mathlib.Tactic.Common

/-!
# Texts

The texts that `snprintf` and `inet_ntop` write, as lists of characters.
-/

namespace SimpleNet

abbrev Text := List Char

/-- What `%d` prints. -/
def decimal (i : Int) : Text :=
  if i < 0 then '-' :: Nat.toDigits 10 i.natAbs else Nat.toDigits 10 i.natAbs

/-- What `snprintf` leaves in a buffer of `size` characters. -/
def snprintf (size : Nat) (t : Text) : Text := t.take (size - 1)

theorem decimal_natCast (n : Nat) : decimal n = Nat.toDigits 10 n := by
  rw [decimal, if_neg (by omega), Int.natAbs_natCast]

theorem decimal_injective {m n : Nat} (h : decimal m = decimal n) : m = n := by
  rw [decimal_natCast, decimal_natCast] at h
  rw [← Nat.ofDigitChars_ten_toDigits (n := m), h, Nat.ofDigitChars_ten_toDigits]

theorem length_decimal_le_iff {n k : Nat} (h : 0 < k) :
    (decimal n).length ≤ k ↔ n < 10 ^ k := by
  rw [decimal_natCast, Nat.length_toDigits_le_iff (by decide) h]

theorem length_decimal_le {n : Nat} (h : n < 2 ^ 31) : (decimal n).length ≤ 10 :=
  (length_decimal_le_iff (by decide)).mpr (by omega)

/-- A number below 2^31 in an `int`. -/
theorem toInt_connId {n : Nat} (h : n < 2 ^ 31) : (BitVec.ofNat 32 n).toInt = n := by
  rw [BitVec.toInt_eq_toNat_of_lt, BitVec.toNat_ofNat, Nat.mod_eq_of_lt]
  · omega
  · rw [BitVec.toNat_ofNat, Nat.mod_eq_of_lt] <;> omega

/-- No number has a digit `#`. -/
theorem hash_not_mem_toDigits {b n : Nat} (hb : 1 < b) : '#' ∉ Nat.toDigits b n := by
  induction n using Nat.strongRecOn with
  | ind n ih =>
    rw [Nat.toDigits_eq_if hb]
    split
    · simp
    · intro h
      rcases List.mem_append.mp h with hq | hr
      · exact ih _ (Nat.div_lt_self (by omega) hb) hq
      · simp at hr

/-! ### Joined texts -/

section

variable {α : Type*} {f : α → Text}

theorem length_intercalate_map_le (c : Char) {k : Nat} (hf : ∀ x, (f x).length ≤ k) :
    ∀ l : List α, ([c].intercalate (l.map f)).length ≤ l.length * (k + 1) - 1
  | [] => by simp
  | [x] => by simpa using hf x
  | x :: y :: l => by
    have hx := hf x
    have hl := length_intercalate_map_le c hf (y :: l)
    rw [List.map_cons] at hl
    rw [List.map_cons, List.map_cons, List.intercalate_cons_cons, List.length_append,
      List.length_append, List.length_singleton]
    simp only [List.length_cons, Nat.succ_mul] at hl ⊢
    omega

theorem not_mem_intercalate_map {b c : Char} (hb : b ≠ c) (hf : ∀ x, b ∉ f x) :
    ∀ l : List α, b ∉ [c].intercalate (l.map f)
  | [] => by simp
  | [x] => by simpa using hf x
  | x :: y :: l => by
    have hl := not_mem_intercalate_map hb hf (y :: l)
    rw [List.map_cons] at hl
    rw [List.map_cons, List.map_cons, List.intercalate_cons_cons]
    simp [hf x, hl, hb]

end

end SimpleNet
