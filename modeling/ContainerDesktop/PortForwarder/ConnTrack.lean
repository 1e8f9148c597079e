import Mathlib.Data.List.AList
import Mathlib.Data.Nat.Digits.Lemmas

/-!
# Connection tracking of the UDP proxy

The table of the UDP proxy is keyed by the address of the client, packed into two
words and the port.  An IPv4 address takes up the low word only, so that it packs
as an IPv6 address of which the upper twelve bytes are zero.  Within one address
family the key tells the endpoints apart (`newConnTrackKey_inj`).
-/

namespace ContainerDesktop.PortForwarder

inductive IPVersion where
  | ipv4
  | ipv6
  deriving DecidableEq

/-- The number of bytes of an address, as the listener of that version gives it. -/
def IPVersion.len : IPVersion → Nat
  | .ipv4 => 4
  | .ipv6 => 16

/-- `net.UDPAddr` -/
structure UDPAddr where
  ip : List UInt8
  port : Int
  zone : String
  deriving DecidableEq

/-- The IP and the port. -/
def UDPAddr.endpoint (addr : UDPAddr) : List UInt8 × Int := (addr.ip, addr.port)

structure ConnTrackKey where
  ipHigh : UInt64
  ipLow : UInt64
  port : Int
  deriving DecidableEq

/-- The number that bytes stand for, the most significant one first. -/
def bigEndian (bytes : List UInt8) : Nat := Nat.ofDigits 256 (bytes.reverse.map UInt8.toNat)

/-- `binary.BigEndian.Uint32` -/
def bigEndianUint32 (bytes : List UInt8) : UInt32 := UInt32.ofNat (bigEndian (bytes.take 4))

/-- `binary.BigEndian.Uint64` -/
def bigEndianUint64 (bytes : List UInt8) : UInt64 := UInt64.ofNat (bigEndian (bytes.take 8))

def newConnTrackKey (addr : UDPAddr) : ConnTrackKey :=
  if addr.ip.length = 4 then ⟨0, (bigEndianUint32 addr.ip).toUInt64, addr.port⟩
  else ⟨bigEndianUint64 (addr.ip.take 8), bigEndianUint64 (addr.ip.drop 8), addr.port⟩

/-! ## Bytes -/

section Bytes

variable {xs ys : List UInt8}

theorem bigEndian_lt (xs : List UInt8) : bigEndian xs < 256 ^ xs.length := by
  have h := Nat.ofDigits_lt_base_pow_length (b := 256) (l := xs.reverse.map UInt8.toNat) (by decide)
    fun x hx => by
      obtain ⟨byte, -, rfl⟩ := List.mem_map.mp hx
      exact byte.toNat_lt
  rwa [List.length_map, List.length_reverse] at h

/-- Bytes of one length stand for one number only if they are the same. -/
theorem bigEndian_inj (hlength : xs.length = ys.length)
    (h : bigEndian xs = bigEndian ys) : xs = ys := by
  have hlt : ∀ zs : List UInt8, ∀ x ∈ zs.reverse.map UInt8.toNat, x < 256 := by
    intro zs x hx
    obtain ⟨byte, -, rfl⟩ := List.mem_map.mp hx
    exact byte.toNat_lt
  have hdigits := Nat.ofDigits_inj_of_len_eq (b := 256) (by decide)
    (by rw [List.length_map, List.length_map, List.length_reverse, List.length_reverse, hlength])
    (hlt xs) (hlt ys) h
  exact List.reverse_injective ((List.map_injective_iff.mpr fun _ _ => UInt8.toNat_inj.mp) hdigits)

theorem toNat_bigEndianUint32 (h : xs.length = 4) : (bigEndianUint32 xs).toNat = bigEndian xs := by
  have hlt := bigEndian_lt xs
  rw [h] at hlt
  rw [bigEndianUint32, ← h, List.take_length, UInt32.toNat_ofNat_of_lt' hlt]

theorem toNat_bigEndianUint64 (h : xs.length = 8) : (bigEndianUint64 xs).toNat = bigEndian xs := by
  have hlt := bigEndian_lt xs
  rw [h] at hlt
  rw [bigEndianUint64, ← h, List.take_length, UInt64.toNat_ofNat_of_lt' hlt]

theorem bigEndianUint64_inj (hx : xs.length = 8) (hy : ys.length = 8)
    (h : bigEndianUint64 xs = bigEndianUint64 ys) : xs = ys := by
  refine bigEndian_inj (hx.trans hy.symm) ?_
  rw [← toNat_bigEndianUint64 hx, ← toNat_bigEndianUint64 hy, h]

end Bytes

/-! ## Keys -/

section Keys

variable {a b : UDPAddr}

theorem newConnTrackKey_ipv4 (h : a.ip.length = 4) :
    newConnTrackKey a = ⟨0, (bigEndianUint32 a.ip).toUInt64, a.port⟩ := if_pos h

theorem newConnTrackKey_ipv6 (h : a.ip.length = 16) : newConnTrackKey a
    = ⟨bigEndianUint64 (a.ip.take 8), bigEndianUint64 (a.ip.drop 8), a.port⟩ := by
  have hne : a.ip.length ≠ 4 := by rw [h]; decide
  rw [newConnTrackKey, if_neg hne]

theorem newConnTrackKey_congr (h : a.endpoint = b.endpoint) :
    newConnTrackKey a = newConnTrackKey b := by
  obtain ⟨hip, hport⟩ := Prod.mk.inj h
  rw [newConnTrackKey, newConnTrackKey, hip, hport]

/-- **The key tells the endpoints of one family apart.** -/
theorem newConnTrackKey_inj {family : IPVersion} (ha : a.ip.length = family.len)
    (hb : b.ip.length = family.len) (h : newConnTrackKey a = newConnTrackKey b) :
    a.endpoint = b.endpoint := by
  cases family with
  | ipv4 =>
    rw [newConnTrackKey_ipv4 ha, newConnTrackKey_ipv4 hb] at h
    obtain ⟨-, hlow, hport⟩ := ConnTrackKey.mk.inj h
    have hword : (bigEndianUint32 a.ip).toNat = (bigEndianUint32 b.ip).toNat := by
      rw [← UInt32.toNat_toUInt64, ← UInt32.toNat_toUInt64, hlow]
    rw [toNat_bigEndianUint32 ha, toNat_bigEndianUint32 hb] at hword
    exact Prod.ext (bigEndian_inj (ha.trans hb.symm) hword) hport
  | ipv6 =>
    rw [newConnTrackKey_ipv6 ha, newConnTrackKey_ipv6 hb] at h
    obtain ⟨hhigh, hlow, hport⟩ := ConnTrackKey.mk.inj h
    have htake : ∀ {addr : UDPAddr}, addr.ip.length = IPVersion.ipv6.len →
        (addr.ip.take 8).length = 8 :=
      fun h => by rw [List.length_take, h]; rfl
    have hdrop : ∀ {addr : UDPAddr}, addr.ip.length = IPVersion.ipv6.len →
        (addr.ip.drop 8).length = 8 :=
      fun h => by rw [List.length_drop, h]; rfl
    have hip : a.ip = b.ip := by
      rw [← List.take_append_drop 8 a.ip, ← List.take_append_drop 8 b.ip,
        bigEndianUint64_inj (htake ha) (htake hb) hhigh,
        bigEndianUint64_inj (hdrop ha) (hdrop hb) hlow]
    exact Prod.ext hip hport

end Keys

end ContainerDesktop.PortForwarder
