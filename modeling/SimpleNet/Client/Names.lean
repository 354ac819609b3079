import SimpleNet.Lib.Before
import SimpleNet.Net.InetAddress
import SimpleNet.Server.Account

/-!
# Names of connections

`TcpClient::newConnection` puts the address of the peer and the number of the connection behind
the name of the client, as `TcpServer::newConnection` does, but in a buffer of 32 characters.
`connName_eq_iff` says what is left of the two there: at most 30 characters of the address,
and of the number the digits for which the address leaves room.  Over IPv4 this is enough for
the first `10 ^ 8 - 1` connections of a client.
-/

namespace SimpleNet

/-- The server's buffer of 64 characters is enough for every address. -/
theorem TcpServer.connName_toIpPort_injective {name : Text} {listenAddr : InetAddress} {m n : Nat}
    (hm : m < 2 ^ 31) (hn : n < 2 ^ 31)
    (h : connName name listenAddr.toIpPort (BitVec.ofNat 32 m) =
      connName name listenAddr.toIpPort (BitVec.ofNat 32 n)) : m = n :=
  connName_injective listenAddr.length_toIpPort_le hm hn h

namespace TcpClient

/-- The name of a connection in `TcpClient::newConnection`. -/
def connName (name : Text) (peerAddr : InetAddress) (nextConnId : BitVec 32) : Text :=
  name ++ snprintf 32 (':' :: peerAddr.toIpPort ++ '#' :: decimal nextConnId.toInt)

section

variable {name : Text} {p q : InetAddress} {m n : Nat}

theorem connName_eq_iff (hm : m < 2 ^ 31) (hn : n < 2 ^ 31) :
    connName name p (BitVec.ofNat 32 m) = connName name q (BitVec.ofNat 32 n) ↔
      p.toIpPort.take 30 = q.toIpPort.take 30 ∧
        (decimal m).take (29 - p.toIpPort.length) = (decimal n).take (29 - p.toIpPort.length) := by
  have hk : 30 - (p.toIpPort.length + 1) = 29 - p.toIpPort.length := by omega
  rw [connName, connName, toInt_connId hm, toInt_connId hn, List.append_cancel_left_eq, snprintf,
    snprintf, List.cons_append, List.cons_append, List.take_succ_cons, List.take_succ_cons,
    List.cons.injEq, eq_self, true_and,
    List.take_append_cons_eq_iff p.hash_not_mem_toIpPort q.hash_not_mem_toIpPort, hk]

/-- **The names of two connections are different** exactly when their addresses are within 30
characters, or their numbers within the digits that are left. -/
theorem connName_ne_iff (name : Text) (p q : InetAddress) (hm : m < 2 ^ 31) (hn : n < 2 ^ 31) :
    connName name p (BitVec.ofNat 32 m) ≠ connName name q (BitVec.ofNat 32 n) ↔
      p.toIpPort.take 30 ≠ q.toIpPort.take 30 ∨
        (decimal m).take (29 - p.toIpPort.length) ≠ (decimal n).take (29 - p.toIpPort.length) := by
  rw [Ne, connName_eq_iff hm hn, not_and_or]

theorem connName_ne_iff_inet :
    connName "client".toList ⟨.inet 0x0a000001, 80⟩ (BitVec.ofNat 32 1) ≠
      connName "client".toList ⟨.inet 0x0a000001, 80⟩ (BitVec.ofNat 32 2) :=
  (connName_ne_iff _ _ _ (by decide) (by decide)).mpr (Or.inr (by decide +kernel))

/-- A long IPv6 address leaves no room for the number, a long IPv4 address not for all of it. -/
theorem connName_not_injective :
    ¬ (∀ (name : Text) (p q : InetAddress) (m n : Nat), m < 2 ^ 31 → n < 2 ^ 31 → m ≠ n →
      connName name p (BitVec.ofNat 32 m) ≠ connName name q (BitVec.ofNat 32 n)) ∧
    connName "client".toList ⟨.inet6 0x20010db8123456789abcdef012345678, 443⟩ 1 =
      connName "client".toList ⟨.inet6 0x20010db8123456789abcdef012345678, 443⟩ 2 ∧
    connName "client".toList ⟨.inet 0xffffffff, 65535⟩ 1000000000 =
      connName "client".toList ⟨.inet 0xffffffff, 65535⟩ 1000000001 := by
  have h6 : connName "client".toList ⟨.inet6 0x20010db8123456789abcdef012345678, 443⟩ 1 =
      connName "client".toList ⟨.inet6 0x20010db8123456789abcdef012345678, 443⟩ 2 := by
    decide +kernel
  exact ⟨fun h => h _ _ _ 1 2 (by decide) (by decide) (by decide) h6, h6, by decide +kernel⟩

/-! ### Where the buffer is large enough -/

theorem connName_injective (hm : m < 2 ^ 31) (hn : n < 2 ^ 31)
    (hp : p.toIpPort.length + (decimal m).length ≤ 29)
    (hq : q.toIpPort.length + (decimal n).length ≤ 29)
    (h : connName name p (BitVec.ofNat 32 m) = connName name q (BitVec.ofNat 32 n)) :
    p.toIpPort = q.toIpPort ∧ m = n := by
  obtain ⟨hpq, hmn⟩ := (connName_eq_iff hm hn).mp h
  rw [List.take_of_length_le (by omega), List.take_of_length_le (by omega)] at hpq
  rw [← hpq] at hq
  rw [List.take_of_length_le (by omega), List.take_of_length_le (by omega)] at hmn
  exact ⟨hpq, decimal_injective hmn⟩

end

/-- What `newConnection` does for the names: `nextConnId_`, and the names it has given. -/
structure Names where
  nextConnId : BitVec 32
  given : List Text

namespace Names

def init : Names := ⟨1, []⟩

def newConnection (name : Text) (s : Names) (peerAddr : InetAddress) : Names where
  nextConnId := s.nextConnId + 1
  given := s.given ++ [connName name peerAddr s.nextConnId]

/-- After `n` connections each name has room for its number. -/
structure Distinct (name : Text) (n : Nat) (s : Names) : Prop where
  nextConnId : s.nextConnId = BitVec.ofNat 32 (n + 1)
  given : ∀ t ∈ s.given, ∃ (p : InetAddress) (i : Nat), i ≤ n ∧
    p.toIpPort.length + (decimal i).length ≤ 29 ∧ t = connName name p (BitVec.ofNat 32 i)
  nodup : s.given.Nodup

variable {name : Text} {n : Nat} {s : Names} {p : InetAddress}

theorem distinct_init : Distinct name 0 init :=
  ⟨rfl, fun _ h => absurd h List.not_mem_nil, List.nodup_nil⟩

/-- One connection more. -/
theorem Distinct.newConnection (h : Distinct name n s) (hn : n + 1 < 2 ^ 31)
    (hp : p.toIpPort.length + (decimal (n + 1 : Nat)).length ≤ 29) :
    Distinct name (n + 1) (s.newConnection name p) where
  nextConnId := by
    rw [Names.newConnection, h.nextConnId]
    exact (BitVec.ofNat_add (n + 1) 1).symm
  given t ht := by
    rcases List.mem_append.mp ht with ht | ht
    · obtain ⟨q, i, hi, hq, rfl⟩ := h.given t ht
      exact ⟨q, i, by omega, hq, rfl⟩
    · obtain rfl := List.mem_singleton.mp ht
      exact ⟨p, n + 1, le_rfl, hp, by rw [h.nextConnId]⟩
  nodup := by
    refine List.nodup_append_comm.mp (List.nodup_cons.mpr ⟨fun ht => ?_, h.nodup⟩)
    obtain ⟨q, i, hi, hq, he⟩ := h.given _ ht
    rw [h.nextConnId] at he
    have := (connName_injective hn (by omega) hp hq he).2
    omega

theorem distinct_foldl {k : Nat} (peers : List InetAddress)
    (hk : ∀ p ∈ peers, p.toIpPort.length + k ≤ 29) (hn : peers.length < 10 ^ k)
    (hb : peers.length < 2 ^ 31) :
    Distinct name peers.length (peers.foldl (newConnection name) init) := by
  induction peers using List.reverseRecOn with
  | nil => exact distinct_init
  | append_singleton peers p ih =>
    rw [List.length_append, List.length_singleton] at hn hb ⊢
    rw [List.foldl_append]
    have hd := ih (fun q hq => hk q (List.mem_append_left _ hq)) (by omega) (by omega)
    refine hd.newConnection hb ?_
    have hp := hk p (List.mem_append_right _ (List.mem_singleton_self p))
    rcases Nat.eq_zero_or_pos k with rfl | hk0
    · rw [pow_zero] at hn
      omega
    · have := (length_decimal_le_iff hk0).mpr hn
      omega

/-- A client that connects over IPv4 gives its first `10 ^ 8 - 1` connections different names. -/
theorem nodup_given_of_inet (peers : List InetAddress)
    (hinet : ∀ p ∈ peers, ∃ s, p.addr = .inet s) (hn : peers.length < 10 ^ 8) :
    (peers.foldl (newConnection name) init).given.Nodup := by
  refine (distinct_foldl (k := 8) peers (fun p hp => ?_) hn (by omega)).nodup
  obtain ⟨s, hs⟩ := hinet p hp
  have := InetAddress.length_toIpPort_inet_le s p.sin_port
  rw [← hs] at this
  exact Nat.add_le_of_le_sub (by decide) this

end Names

end TcpClient

end SimpleNet
