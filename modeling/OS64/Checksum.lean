import OS64.NetStack
/-!
# Checksum — the checksums of IPv4, ICMP and TCP

The code adds up words in 32 bits and folds the carries at the end; the checksum is defined by a sum that adds the carry
back at every step (`onesSum`).  Both are the total of the words brought into `[1, 65535]` modulo 65535, with 0 for no
bits at all (`ones`), so a message that holds its checksum has the sum 65535.
-/
namespace OS64

open List Nat
namespace Net

/-! ## Sums with end-around carry -/

/-- The little-endian words of `n` bytes, the last one of an odd number padded with a zero. -/
def words (m : Mem) : Nat → Nat → List Nat
  | 0, _ => []
  | 1, a => [(m a).toNat]
  | n + 2, a => load m a 2 :: words m n (a + 2)

end Net
end OS64
