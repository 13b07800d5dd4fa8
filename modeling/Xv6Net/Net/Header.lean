import Xv6Net.Bytes.Basic
import Xv6Net.Arith.OnesComplement

/-!
# Ethernet, IP and UDP headers (`net.h`)

The byte-order macros and the header layouts the network code casts frame buffers to.
`struct eth` is packed and 14 bytes long, `struct ip` is 20 bytes long and starts right
after it, `struct udp` is 8 bytes long and starts right after that; so in a frame buffer the
UDP payload starts at offset 42.  The field readers below are the expressions `ip_rx` and
`net_rx` evaluate (`ip_hdr->ip_p`, `ntohs(udp_hdr->dport)`, …), as little-endian loads
followed by the byte swaps of `net.h`.
-/

namespace Xv6Net

namespace Net

open Bytes

/-- `bswaps` of `net.h`. -/
def bswaps (val : UInt16) : UInt16 := ((val &&& 0x00ff) <<< 8) ||| ((val &&& 0xff00) >>> 8)

/-- `bswapl` of `net.h`. -/
def bswapl (val : UInt32) : UInt32 :=
  ((val &&& 0x000000ff) <<< 24) ||| ((val &&& 0x0000ff00) <<< 8) |||
    ((val &&& 0x00ff0000) >>> 8) ||| ((val &&& 0xff000000) >>> 24)

/-- `ntohs`, defined as `bswaps`. -/
def ntohs (x : UInt16) : UInt16 := bswaps x

/-- `ntohl`, defined as `bswapl`. -/
def ntohl (x : UInt32) : UInt32 := bswapl x

/-- `htons`, defined as `bswaps`. -/
def htons (x : UInt16) : UInt16 := bswaps x

/-- `htonl`, defined as `bswapl`. -/
def htonl (x : UInt32) : UInt32 := bswapl x

/-- `bswaps` exchanges the two bytes of the word. -/
theorem bswaps_toNat (x : UInt16) : (bswaps x).toNat = OnesComplement.swapDigits 256 x.toNat := by
  have hx := x.toNat_lt
  have hlo : x.toNat &&& (0x00ff : UInt16).toNat = x.toNat % 256 :=
    Nat.and_two_pow_sub_one_eq_mod x.toNat 8
  -- the high byte, shifted down, is the mask of the shifted word
  have hhi : (x.toNat &&& (0xff00 : UInt16).toNat) >>> 8 = x.toNat / 256 := by
    rw [Nat.shiftRight_and_distrib, show (0xff00 : UInt16).toNat >>> 8 = 2 ^ 8 - 1 from rfl,
      Nat.and_two_pow_sub_one_eq_mod, Nat.shiftRight_eq_div_pow]
    omega
  simp only [bswaps, UInt16.toNat_or, UInt16.toNat_shiftLeft, UInt16.toNat_and,
    UInt16.toNat_shiftRight, show (8 : UInt16).toNat % 16 = 8 from rfl, hlo, hhi]
  have hlt : (x.toNat % 256) <<< 8 < 2 ^ 16 := by rw [Nat.shiftLeft_eq]; omega
  rw [Nat.mod_eq_of_lt hlt, ← Nat.shiftLeft_add_eq_or_of_lt (by omega), Nat.shiftLeft_eq]
  rfl

@[simp] theorem bswaps_bswaps (x : UInt16) : bswaps (bswaps x) = x := by
  apply UInt16.toNat_inj.1
  rw [bswaps_toNat, bswaps_toNat, OnesComplement.swapDigits_swapDigits x.toNat_lt]

/-- A port or a length read back in host order is the one written in network order. -/
@[simp] theorem ntohs_htons (x : UInt16) : ntohs (htons x) = x := bswaps_bswaps x

def ETHADDR_LEN : ℕ := 6

def ETHTYPE_IP : UInt16 := 0x0800

def ETHTYPE_ARP : UInt16 := 0x0806

def IPPROTO_UDP : UInt8 := 17

/-- `sizeof(struct eth)`. -/
def ethSize : ℕ := 14

/-- `sizeof(struct ip)`. -/
def ipSize : ℕ := 20

/-- `sizeof(struct udp)`. -/
def udpSize : ℕ := 8

/-- `sizeof(struct arp)`. -/
def arpSize : ℕ := 28

/-! ### Fields of a received frame -/

/-- `ntohs(eth->type)`. -/
def ethType (buf : List UInt8) : UInt16 := ntohs (load16 buf 12)

/-- `ip_hdr->ip_p`. -/
def ipP (buf : List UInt8) : UInt8 := byteAt buf (ethSize + 9)

/-- `ntohl(ip_hdr->ip_src)`. -/
def ipSrc (buf : List UInt8) : UInt32 := ntohl (load32 buf (ethSize + 12))

/-- `ntohs(udp_hdr->sport)`. -/
def udpSport (buf : List UInt8) : UInt16 := ntohs (load16 buf (ethSize + ipSize))

/-- `ntohs(udp_hdr->dport)`. -/
def udpDport (buf : List UInt8) : UInt16 := ntohs (load16 buf (ethSize + ipSize + 2))

/-- `ntohs(udp_hdr->ulen)`. -/
def udpUlen (buf : List UInt8) : UInt16 := ntohs (load16 buf (ethSize + ipSize + 4))

/-- The fields `net_rx` and `ip_rx` read all lie in the first 42 bytes of the frame. -/
theorem fields_congr {a b : List UInt8}
    (h : ∀ i < ethSize + ipSize + udpSize, byteAt a i = byteAt b i) :
    ethType a = ethType b ∧ ipP a = ipP b ∧ ipSrc a = ipSrc b ∧ udpSport a = udpSport b ∧
      udpDport a = udpDport b ∧ udpUlen a = udpUlen b := by
  simp only [ethSize, ipSize, udpSize] at h
  simp (disch := omega) only [ethType, ipP, ipSrc, udpSport, udpDport, udpUlen, load16, load32,
    ethSize, ipSize, h, and_self]

/-- `int payload_len = udp_len - sizeof(struct udp)`: a `size_t` subtraction (so it wraps
for `udp_len < 8`) truncated to `int`. -/
def payloadLenOf (udpLen : UInt16) : ℤ := toInt32 ((udpLen.toNat + (2 ^ 64 - udpSize)) % 2 ^ 64)

/-- Whatever the wrap-around in between, `payload_len` ends up as `udp_len - 8`. -/
theorem payloadLenOf_eq (udpLen : UInt16) : payloadLenOf udpLen = (udpLen.toNat : ℤ) - 8 := by
  have := udpLen.toNat_lt
  rw [payloadLenOf, udpSize, toInt32_sub_wrap (by omega) (by omega)]
  rfl

end Net

end Xv6Net
