import OS64.Loop
import OS64.Partition
import OS64.Sectors
/-!
# Ahci — sector transfers of the AHCI driver (`drivers/disk/ahci.c`)

`ahci_port_read` and `ahci_port_write` divide the number of sectors by the size of a sector, as if it were a number of
bytes, and move what remains in commands of up to eight sectors through a buffer of one page.  Only a transfer of a
single sector is the one asked for (`ahci_iff`).

The device carries out a command as the command table and the FIS describe it.
-/
namespace OS64

open List Nat
namespace Ahci

/-- The fields of `ahci_port_t` that the transfers read; a buffer of the port has the same physical and virtual
address. -/
structure Port where
  active : Bool
  sectorSize : Nat
  buffers : Nat → Nat
  buffersLt : ∀ i, buffers i < 2 ^ 64
  bufferLocks : Nat → Bool
  bufferSemaphore : Bool

/-- The host-to-device FIS of a transfer and the entry of the PRDT: each field in its width. -/
structure Command where
  write : Bool
  dba : Nat
  dbau : Nat
  dbc : Nat
  lba0 : Nat
  lba1 : Nat
  lba2 : Nat
  lba3 : Nat
  lba4 : Nat
  lba5 : Nat
  countl : Nat
  counth : Nat

/-- The table that `ahci_port_access` fills in; `dbc` has 22 bits. -/
def command (port : Port) (lba count physBuffer : Nat) (write : Bool) : Command where
  write := write
  dba := u32 physBuffer
  dbau := u32 (physBuffer / 2 ^ 32)
  dbc := sub32 (port.sectorSize * count) 1 % 2 ^ 22
  lba0 := lba % 256
  lba1 := lba / 2 ^ 8 % 256
  lba2 := lba / 2 ^ 16 % 256
  lba3 := lba / 2 ^ 24 % 256
  lba4 := lba / 2 ^ 32 % 256
  lba5 := lba / 2 ^ 40 % 256
  countl := count % 256
  counth := count / 256 % 256

namespace Command

def lba (c : Command) : Nat :=
  c.lba0 + c.lba1 * 2 ^ 8 + c.lba2 * 2 ^ 16 + c.lba3 * 2 ^ 24 + c.lba4 * 2 ^ 32 + c.lba5 * 2 ^ 40

def count (c : Command) : Nat := if c.counth * 256 + c.countl = 0 then 65536 else c.counth * 256 + c.countl

def address (c : Command) : Nat := c.dbau * 2 ^ 32 + c.dba

def bytes (c : Command) : Nat := c.dbc + 1

end Command

/-- A command that was carried out, with the place in the caller's buffer that it is for. -/
structure Exchange where
  lba : Nat
  count : Nat
  bytes : Nat
  offset : Nat

/-- The medium, the physical memory, the caller's buffer, and the commands so far. -/
structure Xfer where
  media : Nat → Mem
  ram : Mem
  buffer : Mem
  log : List Exchange

/-- The device reads or writes its sectors, in memory one after the other. -/
def Xfer.execute (x : Xfer) (port : Port) (c : Command) (offset : Nat) : Xfer :=
  let log := x.log ++ [⟨c.lba, c.count, c.bytes, offset⟩]
  if c.write then
    { x with
      media := fun sec o => if (c.lba ≤ sec ∧ sec < c.lba + c.count) ∧ o < port.sectorSize then
          x.ram (c.address + (port.sectorSize * (sec - c.lba) + o)) else x.media sec o
      log := log }
  else { x with
    ram := blit x.ram c.address c.bytes (fun o => x.media (c.lba + o / port.sectorSize) (o % port.sectorSize))
    log := log }

/-- What the device answers to a command: the command slots that are taken, whether it is ready in time and whether the
command completes in time and without an error. -/
structure Answer where
  slots : Nat
  ready : Bool
  completes : Bool

def findCmdSlot (slots : Nat) : Option Nat := (List.range 8).find? (fun i => decide (slots / 2 ^ i % 2 = 0))

def portAccess (port : Port) (ans : Answer) (lba count physBuffer : Nat) (write : Bool) (offset : Nat) (x : Xfer) :
    Xfer × Int :=
  match findCmdSlot ans.slots with
  | none => (x, -1)
  | some _ =>
    if ans.ready = false then (x, -1)
    else if ans.completes = false then (x, -1)
    else (x.execute port (command port lba count physBuffer write) offset, 0)

/-- `ahci_acquire_buffer`: a semaphore that is taken is waited for for ever. -/
def acquireBuffer (port : Port) : Res (Option Nat) :=
  if port.bufferSemaphore then .hang else .ok ((List.range 8).find? (fun i => !port.bufferLocks i))

def sectorsThis (remaining : Nat) : Nat := if 8 < remaining then 8 else remaining

def chunkTurn (op : Transfer) (port : Port) (ans : Answer) (buf lba remaining ptr : Nat) (x : Xfer) : Xfer × Int :=
  let bytesThis := u32 (sectorsThis remaining * port.sectorSize)
  match op with
  | .read =>
    match portAccess port ans lba (sectorsThis remaining) buf false ptr x with
    | (x, rc) => if rc ≠ 0 then (x, rc)
        else ({ x with buffer := blit x.buffer ptr bytesThis (fun o => x.ram (buf + o)) }, 0)
  | .write =>
    portAccess port ans lba (sectorsThis remaining) buf true ptr
      { x with ram := blit x.ram buf bytesThis (fun o => x.buffer (ptr + o)) }

/-- The loop over the commands; a command moves a sector at least. -/
def chunkLoop (op : Transfer) (port : Port) (answers : Nat → Answer) (buf : Nat) :
    Nat → Nat → Nat → Nat → Nat → Xfer → Xfer × Int
  | 0, _, _, _, _, x => (x, 0)
  | fuel + 1, k, lba, remaining, ptr, x =>
    if remaining = 0 then (x, 0)
    else
      match chunkTurn op port (answers k) buf lba remaining ptr x with
      | (x, rc) =>
        if rc ≠ 0 then (x, -1)
        else chunkLoop op port answers buf fuel (k + 1) (u64 (lba + sectorsThis remaining))
          (remaining - sectorsThis remaining)
          (ptr + u32 (sectorsThis remaining * port.sectorSize)) x

def remainingSectors (port : Port) (count : Nat) : Nat := sub32 (u32 (count + port.sectorSize)) 1 / port.sectorSize

/-- `ahci_port_read` and `ahci_port_write`, which differ in the direction. -/
def transfer (op : Transfer) (port : Port) (answers : Nat → Answer) (lba count : Nat) (x : Xfer) : Res (Xfer × Int) :=
  if port.active = false then .ok (x, -1)
  else
    (acquireBuffer port).bind fun
      | none => .ok (x, -1)
      | some i => .ok (chunkLoop op port answers (port.buffers i) (remainingSectors port count) 0 lba
          (remainingSectors port count) 0 x)

def ahciPortRead (port : Port) (answers : Nat → Answer) (lba count : Nat) (x : Xfer) : Res (Xfer × Int) :=
  transfer .read port answers lba count x

def ahciPortWrite (port : Port) (answers : Nat → Answer) (lba count : Nat) (x : Xfer) : Res (Xfer × Int) :=
  transfer .write port answers lba count x

/-! ## What a command moves -/

section
variable {op : Transfer} {port : Port} {ans : Answer} {answers : Nat → Answer} {buf lba count remaining ptr : Nat}
  {x x' x₀ : Xfer} {write : Bool}

theorem command_lba : (command port lba count buf write).lba = lba % 2 ^ 48 := by
  unfold Command.lba command
  dsimp only
  omega

theorem command_count (hpos : 0 < count) (hlt : count < 65536) : (command port lba count buf write).count = count := by
  have hsum : count / 256 % 256 * 256 + count % 256 = count := by omega
  unfold Command.count command
  rw [hsum, if_neg hpos.ne']

theorem command_address (hbuf : buf < 2 ^ 64) : (command port lba count buf write).address = buf := by
  unfold Command.address command u32
  dsimp only
  omega

theorem command_bytes (hpos : 0 < port.sectorSize * count) (hle : port.sectorSize * count ≤ 2 ^ 22) :
    (command port lba count buf write).bytes = port.sectorSize * count := by
  unfold Command.bytes command
  dsimp only
  rw [sub32_of_le (by omega) hpos]
  omega

theorem execute_log (x : Xfer) (port : Port) (c : Command) (offset : Nat) :
    (x.execute port c offset).log = x.log ++ [⟨c.lba, c.count, c.bytes, offset⟩] := by
  unfold Xfer.execute
  split <;> rfl

theorem execute_read {c : Command} (hc : c.write = false) (x : Xfer) (port : Port) (offset : Nat) :
    x.execute port c offset = { x with
      ram := blit x.ram c.address c.bytes (fun o => x.media (c.lba + o / port.sectorSize) (o % port.sectorSize))
      log := x.log ++ [⟨c.lba, c.count, c.bytes, offset⟩] } :=
  if_neg (by rw [hc]; exact Bool.false_ne_true)

theorem execute_write {c : Command} (hc : c.write = true) (x : Xfer) (port : Port) (offset : Nat) :
    x.execute port c offset = { x with
      media := fun sec o => if (c.lba ≤ sec ∧ sec < c.lba + c.count) ∧ o < port.sectorSize then
          x.ram (c.address + (port.sectorSize * (sec - c.lba) + o)) else x.media sec o
      log := x.log ++ [⟨c.lba, c.count, c.bytes, offset⟩] } :=
  if_pos hc

theorem portAccess_ok {offset : Nat} (h : portAccess port ans lba count buf write offset x = (x', 0)) :
    x' = x.execute port (command port lba count buf write) offset := by
  unfold portAccess at h
  split at h
  · simp at h
  split at h
  · simp at h
  split at h
  · simp at h
  · exact (congrArg Prod.fst h).symm

theorem sectorsThis_pos (h : 0 < remaining) : 0 < sectorsThis remaining := by
  unfold sectorsThis
  split
  · decide
  · exact h

theorem sectorsThis_le (remaining : Nat) : sectorsThis remaining ≤ remaining ∧ sectorsThis remaining ≤ 8 := by
  unfold sectorsThis
  split
  · exact ⟨le_of_lt ‹_›, le_refl 8⟩
  · exact ⟨le_rfl, not_lt.1 ‹_›⟩

/-- `n` sectors were moved by one command, and copied out of the buffer of the port or, before, into it. -/
def Turned (port : Port) (buf lba n ptr : Nat) (x x' : Xfer) : Transfer → Prop
  | .read => ∃ y, y = x.execute port (command port lba n buf false) ptr ∧
      x' = { y with buffer := blit y.buffer ptr (u32 (n * port.sectorSize)) (fun o => y.ram (buf + o)) }
  | .write => x' =
      { x with ram := blit x.ram buf (u32 (n * port.sectorSize)) (fun o => x.buffer (ptr + o)) }.execute port
      (command port lba n buf true) ptr

theorem chunkTurn_ok : ∀ {op : Transfer}, chunkTurn op port ans buf lba remaining ptr x = (x', 0) →
    Turned port buf lba (sectorsThis remaining) ptr x x' op
  | .read, h => by
    unfold chunkTurn at h
    dsimp only at h
    split at h
    · rename_i hrc
      exact absurd (congrArg Prod.snd h) hrc
    · rename_i hrc
      exact ⟨_, portAccess_ok (Prod.ext rfl (not_not.1 hrc)), (congrArg Prod.fst h).symm⟩
  | .write, h => portAccess_ok h

theorem chunkTurn_log (hpos : 0 < remaining) (h : chunkTurn op port ans buf lba remaining ptr x = (x', 0)) :
    ∃ bytes, x'.log = x.log ++ [⟨lba % 2 ^ 48, sectorsThis remaining, bytes, ptr⟩] := by
  have hlog : ∀ (y : Xfer) write, (y.execute port (command port lba (sectorsThis remaining) buf write) ptr).log =
      y.log ++ [⟨lba % 2 ^ 48, sectorsThis remaining, (command port lba (sectorsThis remaining) buf write).bytes,
        ptr⟩] :=
    fun y write => by
      have := (sectorsThis_le remaining).2
      rw [execute_log, command_lba, command_count (sectorsThis_pos hpos) (by omega)]
  have hturn := chunkTurn_ok h
  cases op with
  | read =>
    obtain ⟨y, hy, rfl⟩ := hturn
    exact ⟨_, by rw [← hlog x false, ← hy]⟩
  | write => exact ⟨_, by rw [hturn, hlog]⟩

/-- **The commands move as many sectors as remain.** -/
theorem chunkLoop_total : ∀ (fuel k lba remaining ptr : Nat) (x : Xfer), remaining ≤ fuel →
    chunkLoop op port answers buf fuel k lba remaining ptr x = (x', 0) →
    (x'.log.map Exchange.count).sum = (x.log.map Exchange.count).sum + remaining
  | 0, k, lba, remaining, ptr, x, hle, h => by
    cases h
    omega
  | fuel + 1, k, lba, remaining, ptr, x, hle, h => by
    unfold chunkLoop at h
    split at h
    · cases h
      omega
    dsimp only at h
    split at h
    · simp at h
    rename_i hrc
    have hpos : 0 < remaining := by omega
    obtain ⟨bytes, hlog⟩ := @chunkTurn_log op port (answers k) buf lba remaining ptr x _ hpos
      (Prod.ext rfl (not_not.1 hrc))
    have hle' := (sectorsThis_le remaining).1
    have hpos' := sectorsThis_pos hpos
    rw [chunkLoop_total fuel _ _ _ _ _ (by omega) h, hlog, map_append, sum_append_nat]
    simp only [map_cons, map_nil, sum_cons, sum_nil]
    omega

/-! ## The transfer that was asked for -/

/-- `count` sectors from `lba` on are exchanged with the start of the buffer. -/
def Moved (port : Port) (x₀ x : Xfer) (lba count : Nat) : Transfer → Prop
  | .read => x.media = x₀.media ∧ Sectors.Filled port.sectorSize x₀.media x₀.buffer x.buffer lba count
  | .write => x.buffer = x₀.buffer ∧ Sectors.Laid port.sectorSize x₀.buffer x₀.media x.media lba count

/-- **The transfer is the one asked for**: the commands move `count` sectors, sector `lba + i` to or from place `i` in
the buffer and no other, none of them more than a page, and the bytes are where they belong. -/
structure Mapped (port : Port) (x₀ x : Xfer) (lba count : Nat) (op : Transfer) : Prop where
  total : (x.log.map Exchange.count).sum = count
  all : ∀ i, i < count → ∃ e ∈ x.log, ∃ k, k < e.count ∧ e.lba + k = lba + i ∧
    e.offset + port.sectorSize * k = port.sectorSize * i
  only : ∀ e ∈ x.log, ∀ k, k < e.count → ∃ i, i < count ∧ e.lba + k = lba + i ∧
    e.offset + port.sectorSize * k = port.sectorSize * i
  page : ∀ e ∈ x.log, e.bytes ≤ 4096
  bytes : Moved port x₀ x lba count op

theorem remainingSectors_one (h : port.sectorSize = 512 ∨ port.sectorSize = 4096) : remainingSectors port 1 = 1 := by
  unfold remainingSectors
  rcases h with h | h <;> rw [h] <;> rfl

theorem remainingSectors_lt (h : port.sectorSize = 512 ∨ port.sectorSize = 4096) (hcount : 1 < count)
    (hlt : count < 2 ^ 32) : remainingSectors port count < count := by
  unfold remainingSectors sub32 u32
  rcases h with h | h <;> rw [h] <;> split <;> omega

theorem transfer_ok (h : transfer op port answers lba count x = .ok (x', 0)) : ∃ i,
    chunkLoop op port answers (port.buffers i) (remainingSectors port count) 0 lba (remainingSectors port count) 0 x =
    (x', 0) := by
  unfold transfer at h
  split at h
  · simp at h
  obtain ⟨slot, -, h⟩ := Res.bind_ok h
  rcases slot with _ | i
  · simp at h
  · exact ⟨i, Res.ok.inj h⟩

section
variable (hsize : port.sectorSize = 512 ∨ port.sectorSize = 4096)
include hsize

theorem command_one (hbuf : buf < 2 ^ 64) :
    (command port lba 1 buf write).lba = lba % 2 ^ 48 ∧ (command port lba 1 buf write).count = 1 ∧
    (command port lba 1 buf write).bytes = port.sectorSize ∧ (command port lba 1 buf write).address = buf := by
  refine ⟨command_lba, command_count (by decide) (by decide), ?_, command_address hbuf⟩
  rw [command_bytes (by rcases hsize with h | h <;> omega) (by rcases hsize with h | h <;> omega), mul_one]

/-- **One sector**: the command that moves it, and what it leaves. -/
theorem single_sector (hbuf : buf < 2 ^ 64) (h : chunkLoop op port answers buf 1 0 lba 1 0 x₀ = (x, 0)) :
    x.log = x₀.log ++ [⟨lba % 2 ^ 48, 1, port.sectorSize, 0⟩] ∧ Moved port x₀ x (lba % 2 ^ 48) 1 op := by
  have hu32 : u32 (1 * port.sectorSize) = port.sectorSize := by
    rw [one_mul, u32_of_lt (by rcases hsize with h | h <;> omega)]
  have hlog : ∀ (y : Xfer) write, (y.execute port (command port lba 1 buf write) 0).log =
      y.log ++ [⟨lba % 2 ^ 48, 1, port.sectorSize, 0⟩] := fun y write => by
    obtain ⟨hlba, hcount, hbytes, -⟩ := @command_one port buf lba write hsize hbuf
    rw [execute_log, hlba, hcount, hbytes]
  unfold chunkLoop at h
  rw [if_neg (by decide)] at h
  dsimp only at h
  split at h
  · simp at h
  rename_i hrc
  have hturn : Turned port buf lba (sectorsThis 1) 0 x₀ x op :=
    chunkTurn_ok (Prod.ext (Prod.mk.inj h).1 (not_not.1 hrc))
  rw [show sectorsThis 1 = 1 from rfl] at hturn
  cases op with
  | read =>
    obtain ⟨hlba, -, hbytes, haddr⟩ := @command_one port buf lba false hsize hbuf
    obtain ⟨y, hy, rfl⟩ := hturn
    have hylog : y.log = x₀.log ++ [⟨lba % 2 ^ 48, 1, port.sectorSize, 0⟩] := by rw [hy, hlog]
    rw [execute_read rfl, hlba, haddr] at hy
    refine ⟨hylog, ?_⟩
    subst hy
    refine ⟨rfl, fun a => ?_⟩
    unfold blit
    dsimp only
    by_cases ha : a < port.sectorSize
    · rw [if_pos (by omega), if_pos (by omega), if_pos (by omega), show buf + (a - 0) - buf = a by omega]
    · rw [if_neg (by omega), if_neg (by omega)]
  | write =>
    obtain ⟨hlba, hcount, -, haddr⟩ := @command_one port buf lba true hsize hbuf
    dsimp only [Turned] at hturn
    have hxlog : x.log = x₀.log ++ [⟨lba % 2 ^ 48, 1, port.sectorSize, 0⟩] := by rw [hturn, hlog]
    rw [execute_write rfl, hlba, hcount, haddr, hu32] at hturn
    refine ⟨hxlog, ?_⟩
    subst hturn
    refine ⟨rfl, fun sec o => ?_⟩
    dsimp only
    by_cases hin : (lba % 2 ^ 48 ≤ sec ∧ sec < lba % 2 ^ 48 + 1) ∧ o < port.sectorSize
    · have hsec : sec - lba % 2 ^ 48 = 0 := by omega
      rw [if_pos hin, if_pos hin, hsec, mul_zero, zero_add, blit_at _ _ hin.2, zero_add]
    · rw [if_neg hin, if_neg hin]

theorem mapped_iff (hcount : 1 ≤ count) (hlt : count < 2 ^ 32)
    (hlog : x₀.log = []) (h : transfer op port answers lba count x₀ = .ok (x, 0)) :
    Mapped port x₀ x lba count op ↔ count = 1 ∧ lba < 2 ^ 48 := by
  obtain ⟨i, hrun⟩ := transfer_ok h
  constructor
  · intro hm
    have htotal := chunkLoop_total _ _ _ _ _ _ le_rfl hrun
    rw [hm.total, hlog, map_nil, sum_nil] at htotal
    obtain rfl : count = 1 := by
      by_contra hne
      have hless := @remainingSectors_lt port count hsize (by omega) hlt
      omega
    refine ⟨rfl, ?_⟩
    rw [remainingSectors_one hsize] at hrun
    obtain ⟨hx, -⟩ := single_sector hsize (port.buffersLt i) hrun
    obtain ⟨e, he, k, hk, hsec, -⟩ := hm.all 0 (by decide)
    rw [hx, hlog, nil_append, mem_singleton] at he
    subst he
    dsimp only at hsec hk
    omega
  · rintro ⟨rfl, hlba⟩
    rw [remainingSectors_one hsize] at hrun
    obtain ⟨hx, hmoved⟩ := single_sector hsize (port.buffersLt i) hrun
    rw [mod_eq_of_lt hlba] at hx hmoved
    rw [hlog, nil_append] at hx
    refine ⟨by rw [hx]; rfl, fun j hj => ?_, fun e he k hk => ?_, fun e he => ?_, hmoved⟩
    · obtain rfl : j = 0 := by omega
      exact ⟨⟨lba, 1, port.sectorSize, 0⟩, by rw [hx]; exact mem_singleton.2 rfl, 0, Nat.one_pos, rfl, Nat.zero_add _⟩
    · rw [hx, mem_singleton] at he
      subst he
      obtain rfl : k = 0 := by
        dsimp only at hk
        omega
      exact ⟨0, by decide, rfl, zero_add _⟩
    · rw [hx, mem_singleton] at he
      subst he
      dsimp only
      rcases hsize with h | h <;> omega

end

/-- **AHCI transfers**: a read or a write that reports success has moved the sectors it was asked for exactly when it is
a single one with an address of 48 bits. -/
theorem ahci_iff (hsize : port.sectorSize = 512 ∨ port.sectorSize = 4096) (hcount : 1 ≤ count)
    (hlt : count < 4294967296) (hlog : x₀.log = []) :
    (ahciPortRead port answers lba count x₀ = .ok (x, 0) →
      (Mapped port x₀ x lba count .read ↔ count = 1 ∧ lba < 2 ^ 48)) ∧
    (ahciPortWrite port answers lba count x₀ = .ok (x, 0) →
      (Mapped port x₀ x lba count .write ↔ count = 1 ∧ lba < 2 ^ 48)) :=
  ⟨fun h => mapped_iff hsize hcount hlt hlog h, fun h => mapped_iff hsize hcount hlt hlog h⟩

end

def smallPort : Port where
  active := true
  sectorSize := 512
  buffers := fun i => 4096 * (i % 8)
  buffersLt := fun i => by omega
  bufferLocks := fun _ => false
  bufferSemaphore := false

def freshXfer : Xfer := { media := fun _ _ => 1#8, ram := fun _ => 0#8, buffer := fun _ => 0#8, log := [] }

def willing : Nat → Answer := fun _ => { slots := 0, ready := true, completes := true }

theorem ahci_iff_one : ∃ x y, ahciPortRead smallPort willing 5 1 freshXfer = .ok (x, 0) ∧
    (Mapped smallPort freshXfer x 5 1 .read ↔ 1 = 1 ∧ 5 < 2 ^ 48) ∧
    ahciPortWrite smallPort willing 5 1 freshXfer = .ok (y, 0) ∧
    (Mapped smallPort freshXfer y 5 1 .write ↔ 1 = 1 ∧ 5 < 2 ^ 48) := by
  have hread : ∃ x, ahciPortRead smallPort willing 5 1 freshXfer = .ok (x, 0) := ⟨_, rfl⟩
  have hwrite : ∃ y, ahciPortWrite smallPort willing 5 1 freshXfer = .ok (y, 0) := ⟨_, rfl⟩
  obtain ⟨x, hx⟩ := hread
  obtain ⟨y, hy⟩ := hwrite
  exact ⟨x, y, hx, (ahci_iff (.inl rfl) (by decide) (by decide) rfl).1 hx, hy,
    (ahci_iff (.inl rfl) (by decide) (by decide) rfl).2 hy⟩

/-- Of two sectors, only the first is read. -/
theorem second_sector_unread : ∃ x, ahciPortRead smallPort willing 0 2 freshXfer = .ok (x, 0) ∧
    (x.log.map Exchange.count).sum = 1 ∧ x.buffer 512 = 0#8 ∧ ¬ Mapped smallPort freshXfer x 0 2 .read := by
  have hread : ∃ x, ahciPortRead smallPort willing 0 2 freshXfer = .ok (x, 0) ∧
      (x.log.map Exchange.count).sum = 1 ∧ x.buffer 512 = 0#8 := ⟨_, rfl, rfl, rfl⟩
  obtain ⟨x, hx, htotal, hbyte⟩ := hread
  refine ⟨x, hx, htotal, hbyte, fun hm => ?_⟩
  have htwo := hm.total
  rw [htotal] at htwo
  exact absurd htwo (by decide)

end Ahci
end OS64
