import LinuxAdvance.Cxx.Decimal

/-!
# Addresses: `InetAddr`

Two addresses are compared as printed.  `inet_ntoa` prints the four bytes of an
address in decimal with dots between them, and no two addresses print alike.
-/

namespace LinuxAdvance.Chat

open LinuxAdvance.Cxx

/-- The fields of a `sockaddr_in` that are looked at, in network order. -/
structure SockaddrIn where
  sinAddr : UInt8 × UInt8 × UInt8 × UInt8
  sinPort : UInt8 × UInt8
  deriving DecidableEq, Repr

def dot : UInt8 := 46

def inetNtoa : UInt8 × UInt8 × UInt8 × UInt8 → Bytes
  | (a, b, c, d) =>
      natToString a.toNat ++ dot :: (natToString b.toNat ++ dot ::
        (natToString c.toNat ++ dot :: natToString d.toNat))

def ntohs : UInt8 × UInt8 → Nat
  | (high, low) => high.toNat * 256 + low.toNat

/-- What the constructor computes stays true: no method changes a field. -/
structure InetAddr where
  addr : SockaddrIn
  ip : Bytes
  port : Nat
  ip_eq : ip = inetNtoa addr.sinAddr
  port_eq : port = ntohs addr.sinPort
  deriving DecidableEq, Repr

namespace InetAddr

def ofSockaddr (addr : SockaddrIn) : InetAddr :=
  ⟨addr, inetNtoa addr.sinAddr, ntohs addr.sinPort, rfl, rfl⟩

/-- `operator==` -/
def equals (a b : InetAddr) : Bool := a.ip == b.ip && a.port == b.port

end InetAddr

/-! ## No two addresses are taken for one -/

theorem dot_notMem_natToString (n : Nat) : dot ∉ natToString n := by
  intro h
  have hdigit := isDigit_of_mem_natToString h
  simp [dot, isDigit] at hdigit

theorem natToString_dot_inj {m n : Nat} {s t : Bytes}
    (h : natToString m ++ dot :: s = natToString n ++ dot :: t) : m = n ∧ s = t := by
  have htake : ∀ (k : Nat) (r : Bytes),
      (natToString k ++ dot :: r).takeWhile (· ≠ dot) = natToString k := by
    intro k r
    rw [List.takeWhile_append_of_pos]
    · simp
    · intro b hb
      have hne : b ≠ dot := fun hdot => dot_notMem_natToString k (hdot ▸ hb)
      simpa using hne
  have hfirst : natToString m = natToString n := by
    rw [← htake m s, h, htake]
  rw [hfirst] at h
  have hrest := List.append_cancel_left h
  simp only [List.cons.injEq, true_and] at hrest
  exact ⟨natToString_injective hfirst, hrest⟩

theorem inetNtoa_injective : Function.Injective inetNtoa := by
  rintro ⟨a, b, c, d⟩ ⟨a', b', c', d'⟩ h
  obtain ⟨ha, h⟩ := natToString_dot_inj h
  obtain ⟨hb, h⟩ := natToString_dot_inj h
  obtain ⟨hc, h⟩ := natToString_dot_inj h
  have hd := natToString_injective h
  simp only [UInt8.toNat_inj] at ha hb hc hd
  simp [ha, hb, hc, hd]

theorem ntohs_injective : Function.Injective ntohs := by
  rintro ⟨high, low⟩ ⟨high', low'⟩ h
  have hlow := low.toNat_lt
  have hlow' := low'.toNat_lt
  simp only [ntohs] at h
  have hhigh : high.toNat = high'.toNat := by omega
  have heq : low.toNat = low'.toNat := by omega
  simp only [UInt8.toNat_inj] at hhigh heq
  simp [hhigh, heq]

namespace InetAddr

@[simp] theorem addr_ofSockaddr (a : SockaddrIn) : (ofSockaddr a).addr = a := rfl

theorem ofSockaddr_addr (a : InetAddr) : ofSockaddr a.addr = a := by
  obtain ⟨addr, ip, port, rfl, rfl⟩ := a
  rfl

theorem equals_iff {a b : InetAddr} : a.equals b = true ↔ a.addr = b.addr := by
  simp only [equals, Bool.and_eq_true, beq_iff_eq, a.ip_eq, b.ip_eq, a.port_eq, b.port_eq,
    inetNtoa_injective.eq_iff, ntohs_injective.eq_iff]
  cases a.addr
  cases b.addr
  simp

end InetAddr

end LinuxAdvance.Chat
