import SimpleNet.Net.InetAddress

/-!
# Addresses read from texts

`InetAddress(StringArg ip, uint16_t port, bool ipv6)`: `sockets::fromIpPort` reads the text with
`inet_pton`, and an address that it cannot read stays zero.  Of the texts of IPv4 addresses only
those that `inet_ntop` writes are read (`inetPton4_eq_some_iff`).
-/

namespace SimpleNet

/-! ### `inet_pton` -/

/-- `inet_pton` of `AF_INET`, where `octets` have been read and `cur` is being read. -/
def inetPton4Loop : Text → List Nat → Option Nat → Option (List Nat)
  | [], octets, some v => if octets.length = 3 then some (octets ++ [v]) else none
  | [], _, none => none
  | c :: src, octets, cur =>
    if c.isDigit then
      let d := c.toNat - '0'.toNat
      match cur with
      | none => inetPton4Loop src octets (some d)
      | some v =>
        -- no zero before other digits
        if v = 0 then none
        else if 255 < v * 10 + d then none
        else inetPton4Loop src octets (some (v * 10 + d))
    else if c = '.' then
      match cur with
      | some v => if octets.length = 3 then none else inetPton4Loop src (octets ++ [v]) none
      | none => none
    else none

def ofOctets (os : List Nat) : BitVec 32 := .ofNat 32 (os.foldl (fun a o => a * 256 + o) 0)

def inetPton4 (t : Text) : Option (BitVec 32) := (inetPton4Loop t [] none).map ofOctets

/-- The value of a hexadecimal digit. -/
def hexDigit (c : Char) : Option Nat :=
  if c.isDigit then some (c.toNat - '0'.toNat)
  else if 'a' ≤ c ∧ c ≤ 'f' then some (c.toNat - 'a'.toNat + 10)
  else if 'A' ≤ c ∧ c ≤ 'F' then some (c.toNat - 'A'.toNat + 10)
  else none

/-- Where `inet_pton` of `AF_INET6` is. -/
structure Pton6 where
  /-- the text behind the last colon -/
  curtok : Text
  words : List (BitVec 16)
  /-- how many words stand before `::` -/
  colonp : Option Nat
  /-- the digits of the word that is being read, and its value -/
  seen : Nat
  val : Nat

namespace Pton6

def loop : Text → Pton6 → Option Pton6
  | [], s => some s
  | c :: src, s =>
    match hexDigit c with
    | some d =>
      if s.seen = 4 then none else loop src { s with seen := s.seen + 1, val := s.val * 16 + d }
    | none =>
      if c = ':' then
        if s.seen = 0 then
          if s.colonp.isSome then none
          else loop src { s with curtok := src, colonp := some s.words.length }
        else if src = [] ∨ s.words.length = 8 then none
        else loop src { s with
          curtok := src, words := s.words ++ [.ofNat 16 s.val], seen := 0, val := 0 }
      else if c = '.' ∧ s.words.length ≤ 6 then
        (inetPton4 s.curtok).map fun a =>
          { s with words := s.words ++ [a.extractLsb' 16 16, a.extractLsb' 0 16], seen := 0 }
      else none

def ofWords (ws : List (BitVec 16)) : BitVec 128 :=
  .ofNat 128 (ws.foldl (fun a w => a * 65536 + w.toNat) 0)

/-- The last word, and zeros for `::`. -/
def finish (s : Pton6) : Option (BitVec 128) :=
  let ws := if 0 < s.seen then s.words ++ [.ofNat 16 s.val] else s.words
  match s.colonp with
  | none => if ws.length = 8 then some (ofWords ws) else none
  | some k =>
    if ws.length < 8 then
      some (ofWords (ws.take k ++ List.replicate (8 - ws.length) 0 ++ ws.drop k))
    else none

def read (src : Text) : Option (BitVec 128) := (loop src ⟨src, [], none, 0, 0⟩).bind finish

end Pton6

/-- `inet_pton` of `AF_INET6`. -/
def inetPton6 (t : Text) : Option (BitVec 128) :=
  match t with
  | [] => none
  | ':' :: src => if src.head? = some ':' then Pton6.read src else none
  | _ => Pton6.read t

/-- `InetAddress::InetAddress(StringArg ip, uint16_t port, bool ipv6)`. -/
def InetAddress.ofIpPort (ip : Text) (port : BitVec 16) (ipv6 : Bool) : InetAddress :=
  if ipv6 then ⟨.inet6 ((inetPton6 ip).getD 0), port⟩ else ⟨.inet ((inetPton4 ip).getD 0), port⟩

example : inetPton6 "2001:DB8::1".toList = some 0x20010db8000000000000000000000001 := by
  decide +kernel

example : inetPton6 "::ffff:192.168.0.1".toList = some 0x00000000000000000000ffffc0a80001 := by
  decide +kernel

example : inetPton6 "1::2::3".toList = none ∧ inetPton4 "1.2.3.04".toList = none := by
  decide +kernel

/-! ### IPv4 -/

theorem digitChar_toNat : ∀ d < 10,
    d.digitChar.isDigit = true ∧ d.digitChar.toNat - '0'.toNat = d := by
  decide

theorem toDigits_of_isDigit {c : Char} (h : c.isDigit = true) :
    c.toNat - '0'.toNat < 10 ∧ Nat.toDigits 10 (c.toNat - '0'.toNat) = [c] := by
  obtain ⟨h1, h2⟩ : 48 ≤ c.toNat ∧ c.toNat ≤ 57 := by
    simpa [Char.isDigit, UInt32.le_iff_toNat_le] using h
  have hchar : ∀ d < 10, d.digitChar = Char.ofNat (48 + d) := by decide
  have hlt : c.toNat - '0'.toNat < 10 := by
    show c.toNat - 48 < 10
    omega
  refine ⟨hlt, ?_⟩
  rw [Nat.toDigits_of_lt_base hlt, hchar _ hlt]
  show [Char.ofNat (48 + (c.toNat - 48))] = [c]
  rw [Nat.add_sub_cancel' h1, Char.ofNat_toNat]

theorem inetPton4Loop_digits {v : Nat} (hv : v ≤ 255) (src : Text) (octets : List Nat) :
    inetPton4Loop (Nat.toDigits 10 v ++ src) octets none = inetPton4Loop src octets (some v) := by
  induction v using Nat.strongRecOn generalizing src with
  | ind v ih =>
    rw [Nat.toDigits_eq_if (by decide)]
    split
    · next h =>
      obtain ⟨hd, hn⟩ := digitChar_toNat v h
      simp only [List.singleton_append, inetPton4Loop, hd, if_true, hn]
    · next h =>
      obtain ⟨hd, hn⟩ := digitChar_toNat (v % 10) (Nat.mod_lt v (by decide))
      have hval : v / 10 * 10 + v % 10 = v := by omega
      rw [List.append_assoc, ih (v / 10) (by omega) (by omega)]
      simp only [List.singleton_append, inetPton4Loop, hd, if_true, hn, hval]
      rw [if_neg (by omega), if_neg (by omega)]

theorem inetPton4Loop_dot (src : Text) (octets : List Nat) (v : Nat) :
    inetPton4Loop ('.' :: src) octets (some v) =
      if octets.length = 3 then none else inetPton4Loop src (octets ++ [v]) none := rfl

/-- What has been read. -/
def readOctets (octets : List Nat) (cur : Option Nat) : Text :=
  (octets.map fun o => Nat.toDigits 10 o ++ ['.']).flatten ++ (cur.map (Nat.toDigits 10)).getD []

/-- Only the texts of four octets are read. -/
theorem readOctets_of_loop {src : Text} : ∀ {octets : List Nat} {cur : Option Nat} {os : List Nat},
    (∀ o ∈ octets, o ≤ 255) → (∀ v ∈ cur, v ≤ 255) → inetPton4Loop src octets cur = some os →
      ∃ as v, os = as ++ [v] ∧ as.length = 3 ∧ (∀ o ∈ os, o ≤ 255) ∧
        readOctets octets cur ++ src = readOctets as (some v) := by
  induction src with
  | nil =>
    intro octets cur os ho hc h
    cases cur with
    | none => cases h
    | some v =>
      obtain ⟨hl, h⟩ := Option.ite_none_right_eq_some.mp h
      obtain rfl := Option.some.inj h
      refine ⟨octets, v, rfl, hl, fun o hm => ?_, List.append_nil _⟩
      rcases List.mem_append.mp hm with hm | hm
      · exact ho o hm
      · exact List.mem_singleton.mp hm ▸ hc v rfl
  | cons c src ih =>
    intro octets cur os ho hc h
    rw [inetPton4Loop.eq_def] at h
    simp only at h
    split at h
    · next hd =>
      obtain ⟨hlt, htext⟩ := toDigits_of_isDigit hd
      cases cur with
      | none =>
        obtain ⟨as, v, h1, h2, h3, h4⟩ := ih ho (fun v hv => by
          obtain rfl := Option.some.inj hv
          omega) h
        refine ⟨as, v, h1, h2, h3, h4 ▸ ?_⟩
        rw [readOctets, readOctets, Option.map_some, Option.getD_some, htext]
        simp
      | some w =>
        simp only at h
        split at h
        · cases h
        split at h
        · cases h
        next hw hle =>
        obtain ⟨as, v, h1, h2, h3, h4⟩ := ih ho (fun v hv => by
          obtain rfl := Option.some.inj hv
          omega) h
        have hdigits := Nat.toDigits_append_toDigits (b := 10) (by decide) (Nat.pos_of_ne_zero hw) hlt
        rw [htext, Nat.mul_comm] at hdigits
        refine ⟨as, v, h1, h2, h3, h4 ▸ ?_⟩
        rw [readOctets, readOctets, Option.map_some, Option.map_some, Option.getD_some,
          Option.getD_some, ← hdigits]
        simp
    · split at h
      · next hdot =>
        cases cur with
        | none => cases h
        | some w =>
          simp only at h
          split at h
          · cases h
          obtain ⟨as, v, h1, h2, h3, h4⟩ := ih (fun o hm => by
            rcases List.mem_append.mp hm with hm | hm
            · exact ho o hm
            · exact List.mem_singleton.mp hm ▸ hc w rfl) (by simp) h
          refine ⟨as, v, h1, h2, h3, h4 ▸ ?_⟩
          simp [readOctets, hdot]
      · cases h

/-- The octets of an address. -/
def octets (a : BitVec 32) : List Nat := [24, 16, 8, 0].map fun i => (a.extractLsb' i 8).toNat

theorem inetNtop4_eq (a : BitVec 32) :
    inetNtop4 a = readOctets ((octets a).take 3) (some (a.extractLsb' 0 8).toNat) := by
  simp [inetNtop4, readOctets, octets, List.intercalate]

theorem ofOctets_octets (a : BitVec 32) : ofOctets (octets a) = a := by
  apply BitVec.eq_of_toNat_eq
  have ha := a.isLt
  simp only [ofOctets, octets, List.map_cons, List.map_nil, List.foldl_cons, List.foldl_nil,
    BitVec.toNat_ofNat, BitVec.extractLsb'_toNat, Nat.shiftRight_eq_div_pow]
  omega

theorem octets_ofOctets {os : List Nat} (hl : os.length = 4) (ho : ∀ o ∈ os, o ≤ 255) :
    octets (ofOctets os) = os := by
  match os, hl with
  | [o1, o2, o3, o4], _ =>
    have h1 := ho o1 (by simp)
    have h2 := ho o2 (by simp)
    have h3 := ho o3 (by simp)
    have h4 := ho o4 (by simp)
    simp only [ofOctets, octets, List.map_cons, List.map_nil, List.foldl_cons, List.foldl_nil,
      BitVec.toNat_ofNat, BitVec.extractLsb'_toNat, Nat.shiftRight_eq_div_pow]
    congr 1
    · omega
    congr 1
    · omega
    congr 1
    · omega
    congr 1
    omega

theorem inetPton4_inetNtop4 (a : BitVec 32) : inetPton4 (inetNtop4 a) = some a := by
  have ho : ∀ i, (a.extractLsb' i 8).toNat ≤ 255 := fun i =>
    Nat.le_of_lt_succ (a.extractLsb' i 8).isLt
  have hloop : inetPton4Loop (inetNtop4 a) [] none = some (octets a) := by
    rw [inetNtop4_eq]
    simp only [readOctets, octets, List.map_cons, List.map_nil, List.take_succ_cons, List.take_zero,
      List.flatten_cons, List.flatten_nil, List.append_assoc, Option.map_some,
      Option.getD_some, List.cons_append, List.nil_append, List.append_nil]
    rw [inetPton4Loop_digits (ho 24), inetPton4Loop_dot, if_neg (by simp),
      inetPton4Loop_digits (ho 16), inetPton4Loop_dot, if_neg (by simp),
      inetPton4Loop_digits (ho 8), inetPton4Loop_dot, if_neg (by simp)]
    have hlast := inetPton4Loop_digits (ho 0) []
    rw [List.append_nil] at hlast
    rw [hlast]
    rfl
  rw [inetPton4, hloop, Option.map_some, ofOctets_octets]

/-- `inet_pton` reads the texts that `inet_ntop` writes, and no others. -/
theorem inetPton4_eq_some_iff {t : Text} {a : BitVec 32} :
    inetPton4 t = some a ↔ t = inetNtop4 a := by
  constructor
  · intro h
    obtain ⟨os, hos, rfl⟩ := Option.map_eq_some_iff.mp h
    obtain ⟨as, v, rfl, hl, ho, ht⟩ := readOctets_of_loop (by simp) (by simp) hos
    have hoct := octets_ofOctets (by rw [List.length_append, hl]; rfl) ho
    have hlast : ((ofOctets (as ++ [v])).extractLsb' 0 8).toNat = v := by
      have := congrArg (·.getLast?) hoct
      simpa [octets] using this
    rw [inetNtop4_eq, hoct, hlast, List.take_left' hl]
    exact ht
  · rintro rfl
    exact inetPton4_inetNtop4 a

end SimpleNet
