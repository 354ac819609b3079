import Mathlib.Data.List.TakeWhile
import SimpleNet.Net.Parse

/-!
# From addresses to texts and back

`inet_pton` reads what `inet_ntop` writes.  A word is read digit by digit (`loop_toDigits`), words
one after the other (`loop_hexWords`), and an IPv4 address behind words (`loop_inetNtop4`).
`words_eq`: the zeros that `::` stands for are the words between those before it and those
behind.

So an address is read back from its text, and the texts of `toIpPort` tell all endpoints apart.
-/

namespace SimpleNet

/-! ### Words -/

theorem hexDigit_digitChar : ∀ d < 16, hexDigit d.digitChar = some d := by decide

theorem exists_toDigits_eq_cons {b : Nat} (hb : 1 < b) (hb16 : b ≤ 16) (n : Nat) :
    ∃ d < 16, ∃ t, Nat.toDigits b n = d.digitChar :: t := by
  induction n using Nat.strongRecOn with
  | ind n ih =>
    rw [Nat.toDigits_eq_if hb]
    split
    · next h => exact ⟨n, by omega, [], rfl⟩
    · obtain ⟨d, hd, t, ht⟩ := ih (n / b) (Nat.div_lt_self (by omega) hb)
      exact ⟨d, hd, _, by rw [ht]; rfl⟩

theorem hexWords_singleton (w : BitVec 16) : hexWords [w] = Nat.toDigits 16 w.toNat := by
  simp [hexWords]

theorem hexWords_cons {ws : List (BitVec 16)} (w : BitVec 16) (h : ws ≠ []) :
    hexWords (w :: ws) = Nat.toDigits 16 w.toNat ++ ':' :: hexWords ws := by
  obtain ⟨v, vs, rfl⟩ := List.exists_cons_of_ne_nil h
  simp [hexWords]

theorem exists_hexWords_eq_cons {ws : List (BitVec 16)} (h : ws ≠ []) :
    ∃ d < 16, ∃ t, hexWords ws = d.digitChar :: t := by
  obtain ⟨w, ws, rfl⟩ := List.exists_cons_of_ne_nil h
  obtain ⟨d, hd, t, ht⟩ := exists_toDigits_eq_cons (b := 16) (by decide) le_rfl w.toNat
  cases ws with
  | nil => exact ⟨d, hd, t, by rw [hexWords_singleton, ht]⟩
  | cons v vs =>
    exact ⟨d, hd, _, by rw [hexWords_cons w (by simp), ht]; rfl⟩

/-! ### Steps of the reader -/

namespace Pton6

variable {s : Pton6} (src : Text)

theorem loop_digit {d : Nat} (hd : d < 16) (h : s.seen < 4) :
    loop (d.digitChar :: src) s =
      loop src { s with seen := s.seen + 1, val := s.val * 16 + d } := by
  rw [loop.eq_def]
  simp only [hexDigit_digitChar d hd]
  rw [if_neg (by omega)]

/-- At most four digits of some base are read, and those of base 16 have their value. -/
theorem loop_toDigits {b n : Nat} (hb : 1 < b) (hb16 : b ≤ 16)
    (hlen : (Nat.toDigits b n).length ≤ 4) (h0 : s.seen = 0) :
    ∃ v, (b = 16 → s.val = 0 → v = n) ∧ loop (Nat.toDigits b n ++ src) s =
      loop src { s with seen := (Nat.toDigits b n).length, val := v } := by
  induction n using Nat.strongRecOn generalizing src with
  | ind n ih =>
    rw [Nat.toDigits_eq_if hb] at hlen ⊢
    split
    · next h =>
      rw [List.singleton_append, loop_digit src (by omega) (by omega), h0]
      exact ⟨_, fun _ hv => by rw [hv]; omega, rfl⟩
    · next h =>
      rw [if_neg h, List.length_append, List.length_singleton] at hlen
      have hmod := Nat.mod_lt n (by omega : b > 0)
      obtain ⟨v, hv, hloop⟩ :=
        ih (n / b) (Nat.div_lt_self (by omega) hb) ((n % b).digitChar :: src) (by omega)
      rw [List.append_assoc, List.singleton_append, hloop,
        loop_digit src (by omega) (Nat.lt_of_succ_le hlen), List.length_append]
      refine ⟨_, fun hb hs => ?_, rfl⟩
      show v * 16 + n % b = n
      rw [hv hb hs, hb, Nat.mul_comm, Nat.div_add_mod]

theorem loop_word (w : BitVec 16) (h0 : s.seen = 0) (hv : s.val = 0) :
    ∃ k, 0 < k ∧ loop (Nat.toDigits 16 w.toNat ++ src) s =
      loop src { s with seen := k, val := w.toNat } := by
  obtain ⟨v, hw, hloop⟩ := loop_toDigits src (by decide) le_rfl
    ((Nat.length_toDigits_le_iff (by decide) (by decide)).mpr w.isLt) h0
  obtain rfl := hw rfl hv
  exact ⟨_, Nat.length_toDigits_pos, hloop⟩

theorem loop_colon (h0 : s.seen ≠ 0) (hsrc : src ≠ []) (hl : s.words.length < 8) :
    loop (':' :: src) s =
      loop src { s with
        curtok := src, words := s.words ++ [.ofNat 16 s.val], seen := 0, val := 0 } := by
  rw [loop.eq_def]
  simp only [show hexDigit ':' = none from rfl]
  rw [if_pos trivial, if_neg h0, if_neg (by simp [hsrc]; omega)]

theorem loop_colons (h0 : s.seen = 0) (hk : s.colonp = none) :
    loop (':' :: src) s = loop src { s with curtok := src, colonp := some s.words.length } := by
  rw [loop.eq_def]
  simp only [show hexDigit ':' = none from rfl]
  rw [if_pos trivial, if_pos h0, if_neg (by simp [hk])]

theorem loop_dot (hl : s.words.length ≤ 6) :
    loop ('.' :: src) s = (inetPton4 s.curtok).map fun a =>
      { s with words := s.words ++ [a.extractLsb' 16 16, a.extractLsb' 0 16], seen := 0 } := by
  rw [loop.eq_def]
  simp only [show hexDigit '.' = none from rfl]
  rw [if_neg (by decide), if_pos ⟨trivial, hl⟩]

theorem ofNat_toNat_word (w : BitVec 16) : BitVec.ofNat 16 w.toNat = w := by simp

/-- All words but the last one have been read at the end of the text. -/
theorem loop_hexWords {us : List (BitVec 16)} {v : BitVec 16} (h0 : s.seen = 0) (hv : s.val = 0)
    (hl : s.words.length + us.length ≤ 8) :
    ∃ tok k, 0 < k ∧ loop (hexWords (us ++ [v]) ++ src) s =
      loop src ⟨tok, s.words ++ us, s.colonp, k, v.toNat⟩ := by
  induction us generalizing s with
  | nil =>
    obtain ⟨k, hk, hloop⟩ := loop_word src v h0 hv
    exact ⟨s.curtok, k, hk, by rw [List.nil_append, hexWords_singleton, hloop, List.append_nil]⟩
  | cons u us ih =>
    have hne : us ++ [v] ≠ [] := by simp
    obtain ⟨d, -, t, ht⟩ := exists_hexWords_eq_cons hne
    have hsrc : hexWords (us ++ [v]) ++ src ≠ [] := by simp [ht]
    rw [List.length_cons] at hl
    obtain ⟨k, hk, hloop⟩ := loop_word (':' :: (hexWords (us ++ [v]) ++ src)) u h0 hv
    rw [List.cons_append, hexWords_cons u hne, List.append_assoc, List.cons_append, hloop,
      loop_colon _ (Nat.ne_of_gt hk) hsrc (by show s.words.length < 8; omega), ofNat_toNat_word]
    obtain ⟨tok, k, hk, hloop⟩ := ih (s := ⟨_, s.words ++ [u], s.colonp, 0, 0⟩) rfl rfl (by
      show (s.words ++ [u]).length + us.length ≤ 8
      rw [List.length_append, List.length_singleton]
      omega)
    rw [hloop, List.append_assoc, List.singleton_append]
    exact ⟨tok, k, hk, rfl⟩

/-- An IPv4 address behind at most six words. -/
theorem loop_inetNtop4 (a : BitVec 32) {ws : List (BitVec 16)} {k : Option Nat}
    (hl : ws.length ≤ 6) :
    ∃ v, loop (inetNtop4 a) ⟨inetNtop4 a, ws, k, 0, 0⟩ =
      some ⟨inetNtop4 a, ws ++ [a.extractLsb' 16 16, a.extractLsb' 0 16], k, 0, v⟩ := by
  obtain ⟨t, ht⟩ : ∃ t, inetNtop4 a = Nat.toDigits 10 (a.extractLsb' 24 8).toNat ++ '.' :: t :=
    ⟨_, by simp only [inetNtop4, List.map_cons, List.intercalate_cons_cons, List.append_assoc]; rfl⟩
  have hlen : (Nat.toDigits 10 (a.extractLsb' 24 8).toNat).length ≤ 4 :=
    (Nat.length_toDigits_le_iff (by decide) (by decide)).mpr (by omega)
  obtain ⟨v, -, hloop⟩ := loop_toDigits (s := ⟨inetNtop4 a, ws, k, 0, 0⟩) ('.' :: t)
    (by decide) (by decide) hlen rfl
  rw [← ht] at hloop
  refine ⟨v, ?_⟩
  rw [hloop, loop_dot _ hl, inetPton4_inetNtop4]
  rfl

/-! ### Texts of eight words -/

theorem bind_finish_of_words {us : List (BitVec 16)} {v : BitVec 16} (hl : us.length = 7) :
    (loop (hexWords (us ++ [v])) ⟨hexWords (us ++ [v]), [], none, 0, 0⟩).bind finish =
      some (ofWords (us ++ [v])) := by
  obtain ⟨tok, k, hk, hloop⟩ :=
    loop_hexWords (s := ⟨hexWords (us ++ [v]), [], none, 0, 0⟩) (v := v) [] rfl rfl
      (by show 0 + us.length ≤ 8; omega)
  rw [List.append_nil] at hloop
  rw [hloop, loop, Option.bind_some, finish, if_pos hk, ofNat_toNat_word]
  simp [hl]

/-- Zeros for `::`. -/
theorem finish_of_colonp {ws us : List (BitVec 16)}
    (hw : (if 0 < s.seen then s.words ++ [.ofNat 16 s.val] else s.words) = ws ++ us)
    (hk : s.colonp = some ws.length) (hl : ws.length + us.length < 8) :
    finish s =
      some (ofWords (ws ++ List.replicate (8 - (ws.length + us.length)) 0 ++ us)) := by
  simp only [finish, hw, hk, List.length_append, hl, if_true, List.take_left, List.drop_left]

theorem bind_finish_of_colonp {ws us : List (BitVec 16)} (hl : ws.length + us.length < 8) :
    (loop (hexWords us) ⟨hexWords us, ws, some ws.length, 0, 0⟩).bind finish =
      some (ofWords (ws ++ List.replicate (8 - (ws.length + us.length)) 0 ++ us)) := by
  rcases List.eq_nil_or_concat us with rfl | ⟨us, v, rfl⟩
  · rw [show hexWords [] = [] from rfl, loop, Option.bind_some]
    exact finish_of_colonp (List.append_nil ws).symm rfl hl
  · rw [List.concat_eq_append] at hl ⊢
    obtain ⟨tok, k, hk, hloop⟩ := loop_hexWords
      (s := ⟨hexWords (us ++ [v]), ws, some ws.length, 0, 0⟩) [] rfl rfl (by
        rw [List.length_append, List.length_singleton] at hl
        show ws.length + us.length ≤ 8
        omega)
    rw [List.append_nil] at hloop
    rw [hloop, loop, Option.bind_some]
    refine finish_of_colonp ?_ rfl hl
    rw [if_pos hk, ofNat_toNat_word, List.append_assoc]

theorem bind_finish_of_inet {ws us : List (BitVec 16)} {a : BitVec 32} (hl : ws.length ≤ 5)
    (hus : us = ws ++ [a.extractLsb' 16 16, a.extractLsb' 0 16]) :
    (loop (inetNtop4 a) ⟨inetNtop4 a, ws, some 0, 0, 0⟩).bind finish =
      some (ofWords (List.replicate (6 - ws.length) 0 ++ us)) := by
  have hlen : us.length = ws.length + 2 := by rw [hus, List.length_append]; rfl
  obtain ⟨v, hloop⟩ := loop_inetNtop4 (k := some 0) a (hl.trans (by decide))
  rw [hloop, ← hus, Option.bind_some]
  have hl' : ([] : List (BitVec 16)).length + us.length < 8 := by
    rw [List.length_nil]
    omega
  have h6 : 8 - (ws.length + 2) = 6 - ws.length := by omega
  rw [@finish_of_colonp ⟨inetNtop4 a, us, some 0, 0, v⟩ [] us rfl rfl hl', hlen, List.length_nil,
    Nat.zero_add, List.nil_append, h6]

/-- Behind `::ffff:`. -/
theorem bind_finish_of_mapped {us : List (BitVec 16)} {a : BitVec 32}
    (hus : us = 0xffff :: [a.extractLsb' 16 16, a.extractLsb' 0 16]) (tok : Text) :
    (loop (['f', 'f', 'f', 'f', ':'] ++ inetNtop4 a) ⟨tok, [], some 0, 0, 0⟩).bind finish =
      some (ofWords (List.replicate 5 0 ++ us)) := by
  have hf : Nat.toDigits 16 (0xffff : BitVec 16).toNat = ['f', 'f', 'f', 'f'] := by decide
  have hne : inetNtop4 a ≠ [] := fun h => by
    have hread := inetPton4_inetNtop4 a
    rw [h] at hread
    cases hread
  obtain ⟨k, hk, hloop⟩ :=
    loop_word (s := ⟨tok, [], some 0, 0, 0⟩) (':' :: inetNtop4 a) 0xffff rfl rfl
  rw [hf, loop_colon _ (Nat.ne_of_gt hk) hne (by show 0 < 8; decide)] at hloop
  refine (congrArg (·.bind finish) hloop).trans ?_
  exact bind_finish_of_inet (show [0xffff].length ≤ 5 by decide) hus

end Pton6

open Pton6

theorem inetPton6_hexWords {ws : List (BitVec 16)} (h : ws ≠ []) (src : Text) :
    inetPton6 (hexWords ws ++ src) = Pton6.read (hexWords ws ++ src) := by
  obtain ⟨d, hd, t, ht⟩ := exists_hexWords_eq_cons h
  have hne : ∀ d < 16, d.digitChar ≠ ':' := by decide
  rw [ht, List.cons_append, inetPton6]
  · simp
  · intro src h
    exact hne d hd (List.cons.inj h).1

/-- What is read of a text with `::`. -/
theorem inetPton6_colons {ws : List (BitVec 16)} (hl : ws.length < 8) (src : Text) :
    inetPton6 (hexWords ws ++ ':' :: ':' :: src) =
      (loop src ⟨src, ws, some ws.length, 0, 0⟩).bind finish := by
  rcases List.eq_nil_or_concat ws with rfl | ⟨us, v, rfl⟩
  · show Pton6.read (':' :: src) = _
    rw [Pton6.read, loop_colons src rfl rfl]
  · rw [List.concat_eq_append, List.length_append, List.length_singleton] at hl
    rw [List.concat_eq_append, inetPton6_hexWords (by simp), Pton6.read]
    obtain ⟨tok, k, hk, hloop⟩ := loop_hexWords
      (s := ⟨hexWords (us ++ [v]) ++ ':' :: ':' :: src, [], none, 0, 0⟩) (v := v)
      (':' :: ':' :: src) rfl rfl (show 0 + us.length ≤ 8 by omega)
    rw [hloop, loop_colon _ (Nat.ne_of_gt hk) (by simp) (by show us.length < 8; omega),
      loop_colons src rfl rfl, ofNat_toNat_word]
    rfl

/-! ### Runs of zeros -/

theorem bestRun_le (ws : List (BitVec 16)) : (bestRun ws).2 ≤ zeros ws (bestRun ws).1 := by
  rw [bestRun]
  refine List.foldlRecOn (motive := fun best : Nat × Nat => best.2 ≤ zeros ws best.1) _ _ (Nat.zero_le _) ?_
  intro best h i _
  split
  · exact le_rfl
  · exact h

theorem drop_eq_of_le_zeros {ws : List (BitVec 16)} {i n : Nat} (h : n ≤ zeros ws i) :
    ws.drop i = List.replicate n 0 ++ ws.drop (i + n) := by
  rw [← List.drop_drop]
  conv_lhs => rw [← List.take_append_drop n (ws.drop i)]
  congr 1
  have htake : (ws.drop i).take n = ((ws.drop i).takeWhile (· = 0)).take n := by
    conv_lhs => rw [← List.takeWhile_append_dropWhile (p := (· = 0)) (l := ws.drop i)]
    exact List.take_append_of_le_length h
  rw [htake, List.eq_replicate_iff]
  refine ⟨List.length_take_of_le h, fun w hw => ?_⟩
  simpa using List.mem_takeWhile_imp (List.mem_of_mem_take hw)

/-- The words before the longest run of zeros, the zeros, and the words behind. -/
theorem words_eq (ws : List (BitVec 16)) :
    ws = ws.take (bestRun ws).1 ++ List.replicate (bestRun ws).2 0 ++
      ws.drop ((bestRun ws).1 + (bestRun ws).2) := by
  rw [List.append_assoc, ← drop_eq_of_le_zeros (bestRun_le ws), List.take_append_drop]

theorem ofWords_words (a : BitVec 128) : ofWords (words a) = a := by
  apply BitVec.eq_of_toNat_eq
  have ha := a.isLt
  simp only [ofWords, words, List.map_cons, List.map_nil, List.foldl_cons, List.foldl_nil,
    BitVec.toNat_ofNat, BitVec.extractLsb'_toNat, Nat.shiftRight_eq_div_pow]
  omega

theorem length_words (a : BitVec 128) : (words a).length = 8 := rfl

/-- The last two words are an IPv4 address. -/
theorem drop_words (a : BitVec 128) : (words a).drop 6 =
    [(a.extractLsb' 0 32).extractLsb' 16 16, (a.extractLsb' 0 32).extractLsb' 0 16] := by
  have h : ∀ i, i + 16 ≤ 32 → (a.extractLsb' 0 32).extractLsb' i 16 = a.extractLsb' i 16 := by
    intro i hi
    apply BitVec.eq_of_getLsbD_eq
    intro j hj
    simp only [BitVec.getLsbD_extractLsb', Nat.zero_add]
    simp [show i + j < 32 by omega]
  rw [h 16 (by decide), h 0 (by decide)]
  rfl

/-- `inet_pton` reads what `inet_ntop` writes. -/
theorem inetPton6_inetNtop6 (a : BitVec 128) : inetPton6 (inetNtop6 a) = some a := by
  have hruns := words_eq (words a)
  simp only [inetNtop6]
  split_ifs with hlen h4 hm
  · -- no `::`
    obtain ⟨us, v, hws⟩ := (words a).eq_nil_or_concat.resolve_left (by simp [words])
    rw [List.concat_eq_append] at hws
    have hus : us.length = 7 := by simpa [length_words] using (congrArg List.length hws).symm
    have hread := inetPton6_hexWords (show us ++ [v] ≠ [] by simp) []
    rw [List.append_nil] at hread
    rw [hws, hread, Pton6.read, bind_finish_of_words hus, ← hws, ofWords_words]
  · -- `::` and an IPv4 address
    rw [h4.1, h4.2, Nat.zero_add, drop_words] at hruns
    show inetPton6 (hexWords [] ++ ':' :: ':' :: inetNtop4 (a.extractLsb' 0 32)) = some a
    rw [inetPton6_colons (by decide), List.length_nil, bind_finish_of_inet (by decide) rfl]
    exact congrArg some (hruns ▸ ofWords_words a)
  · -- `::ffff:` and an IPv4 address
    have hdrop : (words a).drop 5 = a.extractLsb' 32 16 :: (words a).drop 6 := rfl
    rw [hm.1, hm.2.1, Nat.zero_add, hdrop, drop_words, hm.2.2] at hruns
    show inetPton6 (hexWords [] ++ ':' :: ':' ::
      (['f', 'f', 'f', 'f', ':'] ++ inetNtop4 (a.extractLsb' 0 32))) = some a
    rw [inetPton6_colons (by decide), List.length_nil, bind_finish_of_mapped rfl]
    exact congrArg some (hruns ▸ ofWords_words a)
  · -- `::` anywhere else
    have hl := congrArg List.length hruns
    rw [List.length_append, List.length_append, List.length_replicate, length_words] at hl
    have hlt : ((words a).take (bestRun (words a)).1).length +
        ((words a).drop ((bestRun (words a)).1 + (bestRun (words a)).2)).length < 8 := by omega
    have hcount : 8 - (((words a).take (bestRun (words a)).1).length +
        ((words a).drop ((bestRun (words a)).1 + (bestRun (words a)).2)).length) =
          (bestRun (words a)).2 := by omega
    rw [List.append_assoc]
    show inetPton6 (hexWords _ ++ ':' :: ':' :: hexWords _) = some a
    rw [inetPton6_colons (by omega), bind_finish_of_colonp hlt, hcount, ← hruns, ofWords_words]

/-! ### Colons -/

theorem colon_notMem_toDigits {b : Nat} (hb : 1 < b) (hb16 : b ≤ 16) (n : Nat) :
    ':' ∉ Nat.toDigits b n := by
  have hd : ∀ d < 16, ':' ≠ d.digitChar := by decide
  induction n using Nat.strongRecOn with
  | ind n ih =>
    rw [Nat.toDigits_eq_if hb]
    split
    · exact fun h => hd n (by omega) (List.mem_singleton.mp h)
    · intro h
      have hmod := Nat.mod_lt n (by omega : b > 0)
      rcases List.mem_append.mp h with hq | hr
      · exact ih _ (Nat.div_lt_self (by omega) hb) hq
      · exact hd (n % b) (by omega) (List.mem_singleton.mp hr)

theorem colon_notMem_inetNtop4 (a : BitVec 32) : ':' ∉ inetNtop4 a :=
  not_mem_intercalate_map (by decide) (fun _ => colon_notMem_toDigits (by decide) (by decide) _) _

theorem colon_mem_inetNtop6 (a : BitVec 128) : ':' ∈ inetNtop6 a := by
  simp only [inetNtop6]
  split_ifs
  · rw [words, List.map_cons, hexWords_cons _ (by simp)]
    simp
  all_goals simp

/-- Texts are split at the last character of a kind. -/
theorem append_cons_inj {c : Char} {x y p q : Text} (hp : c ∉ p) (hq : c ∉ q)
    (h : x ++ c :: p = y ++ c :: q) : x = y ∧ p = q := by
  rcases List.append_eq_append_iff.mp h with ⟨t, rfl, ht⟩ | ⟨t, rfl, ht⟩
  · cases t with
    | nil => exact ⟨(List.append_nil x).symm, (List.cons.inj ht).2⟩
    | cons d t => exact absurd ((List.cons.inj ht).2 ▸ by simp) hp
  · cases t with
    | nil => exact ⟨List.append_nil y, (List.cons.inj ht).2.symm⟩
    | cons d t => exact absurd ((List.cons.inj ht).2 ▸ by simp) hq

/-! ### Addresses -/

namespace InetAddress

/-- An address is read back from its text, whatever its words are. -/
theorem ofIpPort_toIp (p : BitVec 16) :
    (∀ s, ofIpPort (toIp ⟨.inet s, p⟩) p false = ⟨.inet s, p⟩) ∧
      ∀ s, ofIpPort (toIp ⟨.inet6 s, p⟩) p true = ⟨.inet6 s, p⟩ := by
  constructor
  · intro s
    show (⟨.inet ((inetPton4 (inetNtop4 s)).getD 0), p⟩ : InetAddress) = _
    rw [inetPton4_inetNtop4, Option.getD_some]
  · intro s
    show (⟨.inet6 ((inetPton6 (inetNtop6 s)).getD 0), p⟩ : InetAddress) = _
    rw [inetPton6_inetNtop6, Option.getD_some]

/-- Of an IPv4 address made from a text: either the text is written again, or the address is
zero and the text is that of no IPv4 address. -/
theorem toIp_ofIpPort (t : Text) (p : BitVec 16) :
    (ofIpPort t p false).toIp = t ∨
      ofIpPort t p false = ⟨.inet 0, p⟩ ∧ ∀ s q, toIp ⟨.inet s, q⟩ ≠ t := by
  cases h : inetPton4 t with
  | none =>
    refine .inr ⟨?_, fun s q hs => ?_⟩
    · rw [ofIpPort, h]
      rfl
    · rw [inetPton4_eq_some_iff.mpr (Eq.symm hs : t = inetNtop4 s)] at h
      cases h
  | some s =>
    left
    show inetNtop4 ((inetPton4 t).getD 0) = t
    rw [h]
    exact (inetPton4_eq_some_iff.mp h).symm

theorem toIp_injective {a b : SinAddr} {p q : BitVec 16}
    (h : toIp ⟨a, p⟩ = toIp ⟨b, q⟩) : a = b := by
  -- a text has a colon, or characters and no colon, or nothing
  have hne : ∀ s, inetNtop4 s ≠ [] := fun s hs => by
    have hread := inetPton4_inetNtop4 s
    rw [hs] at hread
    cases hread
  have hcolon : ∀ s t, inetNtop6 s = t → ':' ∈ t := fun s t ht => ht ▸ colon_mem_inetNtop6 s
  cases a with
  | inet s =>
    cases b with
    | inet s' =>
      have hread := inetPton4_inetNtop4 s
      rw [show inetNtop4 s = inetNtop4 s' from h, inetPton4_inetNtop4] at hread
      rw [Option.some.inj hread]
    | inet6 s' => exact absurd (hcolon s' _ h.symm) (colon_notMem_inetNtop4 s)
    | unspec => exact absurd h (hne s)
  | inet6 s =>
    cases b with
    | inet s' => exact absurd (hcolon s _ h) (colon_notMem_inetNtop4 s')
    | inet6 s' =>
      have hread := inetPton6_inetNtop6 s
      rw [show inetNtop6 s = inetNtop6 s' from h, inetPton6_inetNtop6] at hread
      rw [Option.some.inj hread]
    | unspec => exact absurd (hcolon s _ h) List.not_mem_nil
  | unspec =>
    cases b with
    | inet s' => exact absurd h.symm (hne s')
    | inet6 s' => exact absurd (hcolon s' _ h.symm) List.not_mem_nil
    | unspec => rfl

/-- No two endpoints have one text. -/
theorem toIpPort_injective : Function.Injective toIpPort := by
  rintro ⟨a, p⟩ ⟨b, q⟩ h
  rw [toIpPort_eq, toIpPort_eq] at h
  obtain ⟨hip, hport⟩ := append_cons_inj (colon_notMem_toDigits (by decide) (by decide) _)
    (colon_notMem_toDigits (by decide) (by decide) _) h
  have hpq : p.toNat = q.toNat := by
    rw [← Nat.ofDigitChars_ten_toDigits (n := p.toNat), hport, Nat.ofDigitChars_ten_toDigits]
  rw [toIp_injective hip, BitVec.eq_of_toNat_eq hpq]

end InetAddress

end SimpleNet
