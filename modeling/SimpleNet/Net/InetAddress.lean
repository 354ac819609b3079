import SimpleNet.Net.Text

/-!
# Addresses and their texts

`InetAddress::toIpPort` of an IPv4 or IPv6 address: `inet_ntop` writes the address, `snprintf`
the port behind it.  The texts keep within the sizes that `sockets::toIp` asserts, so nothing
is cut from them in the buffer of 64 characters, and no `#` is in them.
-/

namespace SimpleNet

/-- `sin_addr` or `sin6_addr`, as the family says; neither in the zeros that stay in the
buffer when the kernel knows no address. -/
inductive SinAddr
  | inet (s_addr : BitVec 32)
  | inet6 (s6_addr : BitVec 128)
  | unspec
  deriving DecidableEq, Repr

/-- An address in the order of the network, with `sin_port` and `sin6_port` at one place. -/
structure InetAddress where
  addr : SinAddr
  sin_port : BitVec 16
  deriving DecidableEq, Repr

/-! ### `inet_ntop` -/

/-- `inet_ntop` of `AF_INET`: the octets, as `%u.%u.%u.%u`. -/
def inetNtop4 (a : BitVec 32) : Text :=
  ['.'].intercalate ([24, 16, 8, 0].map fun i => Nat.toDigits 10 (a.extractLsb' i 8).toNat)

/-- The eight words of an IPv6 address. -/
def words (a : BitVec 128) : List (BitVec 16) :=
  [112, 96, 80, 64, 48, 32, 16, 0].map fun i => a.extractLsb' i 16

/-- How many words are zero from the word `i` on. -/
def zeros (ws : List (BitVec 16)) (i : Nat) : Nat := ((ws.drop i).takeWhile (· = 0)).length

/-- The first of the longest runs of zero words: where it begins, and its length. -/
def bestRun (ws : List (BitVec 16)) : Nat × Nat :=
  (List.range 8).foldl (fun best i => if best.2 < zeros ws i then (i, zeros ws i) else best) (0, 0)

/-- Words as `%x:%x:...`. -/
def hexWords (ws : List (BitVec 16)) : Text :=
  [':'].intercalate (ws.map fun w => Nat.toDigits 16 w.toNat)

/-- `inet_ntop` of `AF_INET6`: the longest run of zero words is written `::` when it has more
than one word, and the last two words as an IPv4 address behind `::` and `::ffff:`. -/
def inetNtop6 (a : BitVec 128) : Text :=
  let ws := words a
  let (base, len) := bestRun ws
  if len < 2 then hexWords ws
  else if base = 0 ∧ len = 6 then [':', ':'] ++ inetNtop4 (a.extractLsb' 0 32)
  else if base = 0 ∧ len = 5 ∧ a.extractLsb' 32 16 = 0xffff then
    [':', ':', 'f', 'f', 'f', 'f', ':'] ++ inetNtop4 (a.extractLsb' 0 32)
  else hexWords (ws.take base) ++ [':', ':'] ++ hexWords (ws.drop (base + len))

example : inetNtop6 0x20010db8000000000000000000000001 = "2001:db8::1".toList := by decide +kernel

example : inetNtop6 0x00000000000000000000ffffc0a80001 = "::ffff:192.168.0.1".toList := by
  decide +kernel

/-! ### Sizes and separators -/

theorem length_inetNtop4_le (a : BitVec 32) : (inetNtop4 a).length ≤ 15 :=
  length_intercalate_map_le '.' (k := 3)
    (fun _ => (Nat.length_toDigits_le_iff (by decide) (by decide)).mpr (by omega)) _

theorem length_hexWords_le (ws : List (BitVec 16)) : (hexWords ws).length ≤ ws.length * 5 - 1 :=
  length_intercalate_map_le ':' (k := 4)
    (fun _ => (Nat.length_toDigits_le_iff (by decide) (by decide)).mpr (by omega)) ws

theorem length_inetNtop6_le (a : BitVec 128) : (inetNtop6 a).length ≤ 45 := by
  have hw : (words a).length = 8 := rfl
  have h4 := length_inetNtop4_le (a.extractLsb' 0 32)
  simp only [inetNtop6]
  split_ifs
  · have := length_hexWords_le (words a)
    omega
  · simp only [List.length_append, List.length_cons, List.length_nil]
    omega
  · simp only [List.length_append, List.length_cons, List.length_nil]
    omega
  · have ht := length_hexWords_le ((words a).take (bestRun (words a)).1)
    have hd := length_hexWords_le ((words a).drop ((bestRun (words a)).1 + (bestRun (words a)).2))
    simp only [List.length_append, List.length_cons, List.length_nil, List.length_take,
      List.length_drop] at ht hd ⊢
    omega

theorem hash_not_mem_inetNtop4 (a : BitVec 32) : '#' ∉ inetNtop4 a :=
  not_mem_intercalate_map (by decide) (fun _ => hash_not_mem_toDigits (by decide)) _

theorem hash_not_mem_hexWords (ws : List (BitVec 16)) : '#' ∉ hexWords ws :=
  not_mem_intercalate_map (by decide) (fun _ => hash_not_mem_toDigits (by decide)) ws

theorem hash_not_mem_inetNtop6 (a : BitVec 128) : '#' ∉ inetNtop6 a := by
  simp only [inetNtop6]
  split_ifs
  · exact hash_not_mem_hexWords _
  · simp [hash_not_mem_inetNtop4]
  · simp [hash_not_mem_inetNtop4]
  · simp [hash_not_mem_hexWords]

namespace InetAddress

/-- `sockets::toIp`. -/
def toIp (a : InetAddress) : Text :=
  match a.addr with
  | .inet s => inetNtop4 s
  | .inet6 s => inetNtop6 s
  | .unspec => []

/-- `InetAddress::toIpPort`, with `sockets::toIpPort` on its buffer of 64 characters. -/
def toIpPort (a : InetAddress) : Text :=
  a.toIp ++ snprintf (64 - a.toIp.length) (':' :: Nat.toDigits 10 a.sin_port.toNat)

variable (a : InetAddress)

theorem length_toIp_le : a.toIp.length ≤ 45 := by
  rw [toIp]
  split
  · exact (length_inetNtop4_le _).trans (by decide)
  · exact length_inetNtop6_le _
  · exact Nat.zero_le _

theorem length_port_le : (Nat.toDigits 10 a.sin_port.toNat).length ≤ 5 :=
  (Nat.length_toDigits_le_iff (by decide) (by decide)).mpr (by omega)

/-- The buffer of 64 characters holds every address with its port. -/
theorem toIpPort_eq : a.toIpPort = a.toIp ++ ':' :: Nat.toDigits 10 a.sin_port.toNat := by
  have hip := a.length_toIp_le
  have hport := a.length_port_le
  rw [toIpPort, snprintf, List.take_of_length_le]
  rw [List.length_cons]
  omega

theorem length_toIpPort_le : a.toIpPort.length ≤ 51 := by
  have hip := a.length_toIp_le
  have hport := a.length_port_le
  rw [toIpPort_eq, List.length_append, List.length_cons]
  omega

theorem length_toIpPort_inet_le (s : BitVec 32) (p : BitVec 16) :
    (toIpPort ⟨.inet s, p⟩).length ≤ 21 := by
  have hip : (toIp ⟨.inet s, p⟩).length ≤ 15 := length_inetNtop4_le s
  have hport := length_port_le ⟨.inet s, p⟩
  rw [toIpPort_eq, List.length_append, List.length_cons]
  omega

theorem hash_not_mem_toIpPort : '#' ∉ a.toIpPort := by
  have hip : '#' ∉ a.toIp := by
    rw [toIp]
    split
    · exact hash_not_mem_inetNtop4 _
    · exact hash_not_mem_inetNtop6 _
    · exact List.not_mem_nil
  rw [toIpPort_eq]
  simp [hip, hash_not_mem_toDigits]

end InetAddress

end SimpleNet
