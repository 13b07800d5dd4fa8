import Xv6Net.Net.Header

/-!
# The frames the kernel builds (`net.c`)

`sys_send` zeroes a page and writes an Ethernet, an IP and a UDP header into it before the
payload (`sendHeader`), with the IP header's checksum computed by `in_cksum`; `arp_rx` writes
its one ARP reply into a fresh page (`arpReply`).  Each is the sequence of stores the C code
performs, in its order, on the page's bytes.
-/

namespace Xv6Net

namespace Net

open Bytes

/-- xv6's Ethernet address, `local_mac`. -/
def local_mac : List UInt8 := [0x52, 0x54, 0x00, 0x12, 0x34, 0x56]

/-- xv6's IP address, `local_ip = MAKE_IP_ADDR(10, 0, 2, 15)`. -/
def local_ip : UInt32 := 0x0a00020f

/-- The qemu host's Ethernet address, `host_mac`. -/
def host_mac : List UInt8 := [0x52, 0x55, 0x0a, 0x00, 0x02, 0x02]

def ARP_HRD_ETHER : UInt16 := 1

def ARP_OP_REPLY : UInt16 := 2

/-- The loop of `in_cksum`: `k` more 16-bit words from offset `i` added to the 32-bit `sum`. -/
def cksumWords (addr : List UInt8) : ℕ → ℕ → UInt32 → UInt32
  | _, 0, sum => sum
  | i, k + 1, sum => cksumWords addr (i + 2) k (sum + (load16 addr i).toUInt32)

/-- `in_cksum(addr, len)`. -/
def inCksum (addr : List UInt8) (len : ℤ) : UInt16 :=
  -- `while (nleft > 1)` runs `len / 2` times for `len ≥ 2`, and not at all otherwise
  let words := if len > 1 then (len / 2).toNat else 0
  let sum : UInt32 := cksumWords addr 0 words 0
  let nleft := len - 2 * (words : ℤ)
  let sum : UInt32 := if nleft = 1 then sum + (byteAt addr (2 * words)).toUInt32 else sum
  let sum : UInt32 := (sum &&& (0xffff : UInt32)) + (sum >>> (16 : UInt32))
  let sum : UInt32 := sum + (sum >>> (16 : UInt32))
  (~~~sum).toUInt16

/-- The page `sys_send(sport, dst, dport, _, len)` builds before the payload: `memset` to zero,
then the three headers, field by field. -/
def sendHeader (sport dst dport len : ℤ) : List UInt8 :=
  let buf := List.replicate 4096 0
  let buf := writeAt buf 0 host_mac
  let buf := writeAt buf 6 local_mac
  let buf := store16 buf 12 (htons ETHTYPE_IP)
  let buf := store8 buf 14 0x45
  let buf := store8 buf 15 0
  let buf := store16 buf 16 (htons (UInt16.ofInt (ipSize + udpSize + len)))
  let buf := store16 buf 18 0
  let buf := store16 buf 20 0
  let buf := store8 buf 22 100
  let buf := store8 buf 23 IPPROTO_UDP
  let buf := store32 buf 26 (htonl local_ip)
  let buf := store32 buf 30 (htonl (UInt32.ofInt dst))
  -- `ip_sum` is still zero when the header is summed
  let buf := store16 buf 24 (inCksum (slice buf ethSize ipSize) ipSize)
  let buf := store16 buf 34 (htons (UInt16.ofInt sport))
  let buf := store16 buf 36 (htons (UInt16.ofInt dport))
  store16 buf 38 (htons (UInt16.ofInt (len + udpSize)))

/-- `sys_send`'s page as the IP header is finished: the page `buf` before `ip_sum` is set (its
bytes `24` and `25` still zero, its Ethernet type, protocol and source address written), then the
checksum of its IP header and the three stores of the UDP header. -/
theorem sendHeader_split (sport dst dport len : ℤ) :
    ∃ buf : List UInt8, buf.length = 4096 ∧ byteAt buf 24 = 0 ∧ byteAt buf 25 = 0 ∧
      ethType buf = ETHTYPE_IP ∧ ipP buf = IPPROTO_UDP ∧ ipSrc buf = local_ip ∧
      sendHeader sport dst dport len =
        store16 (store16 (store16 (store16 buf 24 (inCksum (slice buf ethSize ipSize) ipSize)) 34
          (htons (UInt16.ofInt sport))) 36 (htons (UInt16.ofInt dport))) 38
          (htons (UInt16.ofInt (len + udpSize))) := by
  unfold sendHeader
  -- the page `memset` zeroed, written at offsets below 24 and from 26 on
  generalize hz : List.replicate 4096 (0 : UInt8) = z
  have hzl : z.length = 4096 := by rw [← hz, List.length_replicate]
  have hz0 : ∀ i, byteAt z i = 0 := fun i => by rw [← hz]; exact byteAt_replicate_zero 4096 i
  refine ⟨_, ?_, ?_, ?_, ?_, ?_, ?_, rfl⟩
  · simp [length_writeAt, hzl, store8, store16_eq_writeAt, store32_eq_writeAt, host_mac, local_mac]
  all_goals
    simp only [ethType, ipP, ipSrc, load16, load32, ethSize, store8, store16_eq_writeAt,
      store32_eq_writeAt]
    repeat rw [byteAt_writeAt (by simp [length_writeAt, hzl, host_mac, local_mac])]
    simp only [hz0]
    simp [host_mac, local_mac]
  all_goals decide

/-- The fields `net_rx` and `ip_rx` read back from the page `sys_send` builds: an IPv4 frame
carrying UDP from `local_ip`, with the ports and the UDP length as `sys_send` truncated them to
16 bits. -/
theorem sendHeader_fields (sport dst dport len : ℤ) :
    (sendHeader sport dst dport len).length = 4096 ∧
      ethType (sendHeader sport dst dport len) = ETHTYPE_IP ∧
      ipP (sendHeader sport dst dport len) = IPPROTO_UDP ∧
      ipSrc (sendHeader sport dst dport len) = local_ip ∧
      udpSport (sendHeader sport dst dport len) = UInt16.ofInt sport ∧
      udpDport (sendHeader sport dst dport len) = UInt16.ofInt dport ∧
      udpUlen (sendHeader sport dst dport len) = UInt16.ofInt (len + udpSize) := by
  obtain ⟨buf, hlen, -, -, he, hp, hs, heq⟩ := sendHeader_split sport dst dport len
  have l1 : (store16 buf 24 (inCksum (slice buf ethSize ipSize) ipSize)).length = 4096 := by
    rw [store16_length (by omega), hlen]
  have l2 : (store16 (store16 buf 24 (inCksum (slice buf ethSize ipSize) ipSize)) 34
      (htons (UInt16.ofInt sport))).length = 4096 := by
    rw [store16_length (by omega), l1]
  have l3 : (store16 (store16 (store16 buf 24 (inCksum (slice buf ethSize ipSize) ipSize)) 34
      (htons (UInt16.ofInt sport))) 36 (htons (UInt16.ofInt dport))).length = 4096 := by
    rw [store16_length (by omega), l2]
  rw [heq]
  -- each field is read through the stores that miss it, down to the one that wrote it
  refine ⟨by rw [store16_length (by omega), l3], ?_, ?_, ?_, ?_, ?_, ?_⟩
  · rw [← he, ethType, ethType, load16_store16_of_disjoint (by omega) (by omega),
      load16_store16_of_disjoint (by omega) (by omega),
      load16_store16_of_disjoint (by omega) (by omega),
      load16_store16_of_disjoint (by omega) (by omega)]
  · rw [← hp, ipP, ipP, byteAt_store16_of_disjoint (by omega) (by decide),
      byteAt_store16_of_disjoint (by omega) (by decide),
      byteAt_store16_of_disjoint (by omega) (by decide),
      byteAt_store16_of_disjoint (by omega) (by decide)]
  · rw [← hs, ipSrc, ipSrc, load32_store16_of_disjoint (by omega) (by decide),
      load32_store16_of_disjoint (by omega) (by decide),
      load32_store16_of_disjoint (by omega) (by decide),
      load32_store16_of_disjoint (by omega) (by decide)]
  · rw [udpSport, show ethSize + ipSize = 34 from rfl,
      load16_store16_of_disjoint (by omega) (by decide),
      load16_store16_of_disjoint (by omega) (by decide), load16_store16_self (by omega),
      ntohs_htons]
  · rw [udpDport, show ethSize + ipSize + 2 = 36 from rfl,
      load16_store16_of_disjoint (by omega) (by decide), load16_store16_self (by omega),
      ntohs_htons]
  · rw [udpUlen, show ethSize + ipSize + 4 = 38 from rfl, load16_store16_self (by omega),
      ntohs_htons]

/-- The reply `arp_rx` writes into the page `buf` (as `kalloc` left it) for the request `inbuf`. -/
def arpReply (buf inbuf : List UInt8) : List UInt8 :=
  let ineth_shost := slice inbuf ETHADDR_LEN ETHADDR_LEN
  let buf := writeAt buf 0 ineth_shost
  let buf := writeAt buf 6 local_mac
  let buf := store16 buf 12 (htons ETHTYPE_ARP)
  let buf := store16 buf 14 (htons ARP_HRD_ETHER)
  let buf := store16 buf 16 (htons ETHTYPE_IP)
  let buf := store8 buf 18 ETHADDR_LEN.toUInt8
  let buf := store8 buf 19 4
  let buf := store16 buf 20 (htons ARP_OP_REPLY)
  let buf := writeAt buf 22 local_mac
  let buf := store32 buf 28 (htonl local_ip)
  let buf := writeAt buf 32 ineth_shost
  -- `arp->tip = inarp->sip`, copied as it is
  store32 buf 38 (load32 inbuf (ethSize + 14))

end Net

end Xv6Net
