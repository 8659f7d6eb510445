import Mathlib.Data.Fintype.Pi
import OS64.Bytes
import OS64.Word
/-!
# Net — addresses, byte order and buffers of the network stack

A `net_buf_t` is a block of memory with positions in it.  `net_reserve` moves `data` forward, as `net_pull` does, so a
header that a layer puts in front of the data is written over the data.
-/
namespace OS64
namespace Net

/-- `ipv4_addr_t`: the word `addr` of the union, whose bytes are the octets in the order of the wire. -/
abbrev Ipv4Addr := BitVec 32

def octet (addr : Ipv4Addr) (i : Nat) : BitVec 8 := addr.extractLsb' (8 * i) 8

def ipv4 (a b c d : BitVec 8) : Ipv4Addr := d ++ c ++ b ++ a

abbrev Mac := Fin 6 → BitVec 8

def ntohs (n : Nat) : Nat := u16 (n / 256 ||| n * 256)

def ntohl (n : BitVec 32) : BitVec 32 :=
  ((n &&& 0xFF#32) <<< 24) ||| ((n &&& 0xFF00#32) <<< 8) ||| ((n &&& 0xFF0000#32) >>> 8) |||
    ((n &&& 0xFF000000#32) >>> 24)

def word32 (m : Mem) (a : Nat) : BitVec 32 := BitVec.ofNat 32 (load m a 4)

def macAt (m : Mem) (a : Nat) : Mac := fun i => m (a + i)

def macBytes (mac : Mac) : Mem := fun i => if h : i < 6 then mac ⟨i, h⟩ else 0#8

/-- `net_buf_t`: the block from `head` on, with the positions `data`, `tail` and `end` counted from there. -/
structure NetBuf where
  block : Mem
  data : Nat
  tail : Nat
  last : Nat
  len : Nat
  headroom : Nat

def netHeadroom : Nat := 64

/-- `net_alloc_buf`; the block holds what was there before, as `malloc` does not clear it. -/
def netAllocBuf (block : Mem) (size : Nat) : NetBuf where
  block := block
  data := netHeadroom
  tail := netHeadroom
  last := u32 (size + netHeadroom)
  len := 0
  headroom := netHeadroom

namespace NetBuf

def reserve (buf : NetBuf) (headroom : Nat) : NetBuf :=
  if buf.headroom < headroom then buf
  else { buf with data := buf.data + headroom, headroom := buf.headroom - headroom }

def pull (buf : NetBuf) (len : Nat) : NetBuf :=
  if buf.len < len then buf else { buf with data := buf.data + len, len := buf.len - len }

def byte (buf : NetBuf) (i : Nat) : BitVec 8 := buf.block (buf.data + i)

def field (buf : NetBuf) (i k : Nat) : Nat := load buf.block (buf.data + i) k

def setField (buf : NetBuf) (i k v : Nat) : NetBuf := { buf with block := store buf.block (buf.data + i) k v }

end NetBuf

/-- `net_device_t`; `xmit` is what its driver returns for a frame. -/
structure NetDevice where
  macAddr : Mac
  ipAddr : Ipv4Addr
  netmask : Ipv4Addr
  gateway : Ipv4Addr
  xmit : Int

structure Frame where
  bytes : Mem
  len : Nat

end Net
end OS64
