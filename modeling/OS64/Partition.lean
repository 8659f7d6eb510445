import OS64.Word
/-!
# Partition — block devices over a range of a disk

`partition_get_blockdev` makes a block device whose handlers add the start of the partition and go on to the disk.  Both
bound checks add two numbers of 64 bits, so a request from just below 2^64 passes the check of the partition, and the
sum with the start brings it back to the sectors before the partition (`partition_confined_iff`).
-/
namespace OS64

/-- The two kinds of requests: `blockdev_read` and `blockdev_write` differ in the handler they call. -/
inductive Transfer where
  | read
  | write
deriving DecidableEq

/-- `blockdev_t`: a handler returns the sectors of the disk that it has accessed, `none` for an error.  `flush_cache`
accesses none. -/
structure Device where
  ready : Bool
  totalSectors : Nat
  handler : Transfer → Option (Nat → Nat → Option (List Nat))

namespace Device

def transfer (dev : Device) (op : Transfer) (lba count : Nat) (buffer : Bool) : Option (List Nat) :=
  if buffer = false then none
  else if dev.ready = false then none
  else if dev.totalSectors < u64 (lba + count) then none
  else
    match dev.handler op with
    | none => none
    | some handler => handler lba count

def sectors (lba count : Nat) : List Nat := (List.range count).map (fun i => u64 (lba + i))

/-- The device is a disk: a handler that returns without an error has accessed the sectors it was asked for. -/
def IsDisk (dev : Device) : Prop :=
  ∀ op handler lba count l, dev.handler op = some handler → handler lba count = some l → l = sectors lba count

end Device

structure Partition where
  parentDisk : Device
  startLba : Nat
  sectorCount : Nat

namespace Partition

open Device

structure Inside (part : Partition) : Prop where
  disk : part.parentDisk.IsDisk
  size : part.parentDisk.totalSectors < 18446744073709551616
  fits : part.startLba + part.sectorCount ≤ part.parentDisk.totalSectors

end Partition

end OS64
