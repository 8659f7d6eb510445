import OS64.Loop
import OS64.Partition
import OS64.Sectors
/-!
# Ide — sector transfers of the IDE driver (`drivers/disk/ide.c`)

`ide_read_sectors` and `ide_write_sectors` move one sector at a time, in chunks of 256.  At the end of a chunk the base
address and the pointer are advanced, and the number of sectors done is added to both once more: the second chunk goes
256 sectors too far.  With 28 bits for the address a higher sector is programmed modulo 2^28.  `ide_iff` says when a
transfer that reports success has moved the sectors it was asked for.

The drive is the registers that the driver programs and the sectors that it serves.
-/
namespace OS64

open List Nat
namespace Ide

def ok : Int := 0
def errTimeout : Int := -1
def errDevice : Int := -2
def errInvalid : Int := -3

structure Disk where
  drive : Nat
  totalSectors : Nat
  sectorSize : Nat
  supportsLba48 : Bool

inductive Reg where
  | nsect
  | sector
  | lcyl
  | hcyl
deriving DecidableEq

/-- The task file: the last byte written to a register and the one before it, and the device register. -/
structure TaskFile where
  last : Reg → Nat
  prev : Reg → Nat
  select : Nat

namespace TaskFile

def outb (t : TaskFile) (reg : Reg) (value : Nat) : TaskFile :=
  { t with last := Function.update t.last reg (value % 256), prev := Function.update t.prev reg (t.last reg) }

def selectDevice (t : TaskFile) (drive : Nat) (lbaFlag : Bool) (headHigh4 : Nat) : TaskFile :=
  { t with select := (if lbaFlag then 0xE0 else 0xA0) + drive % 2 * 16 + headHigh4 % 16 }

def setupLba28 (t : TaskFile) (lba count drive : Nat) : TaskFile :=
  ((((t.selectDevice drive true (lba / 2 ^ 24 % 16)).outb .nsect count).outb .sector (lba % 256)).outb .lcyl
    (lba / 2 ^ 8 % 256)).outb .hcyl (lba / 2 ^ 16 % 256)

/-- `setup_lba48_regs`: the high bytes, then the low ones. -/
def setupLba48 (t : TaskFile) (lba count drive : Nat) : TaskFile :=
  let high := ((((t.selectDevice drive true (lba / 2 ^ 24 % 16)).outb .nsect (count / 256)).outb .sector
    (lba / 2 ^ 24 % 256)).outb .lcyl (lba / 2 ^ 32 % 256)).outb .hcyl (lba / 2 ^ 40 % 256)
  (((high.outb .nsect (count % 256)).outb .sector (lba % 256)).outb .lcyl (lba / 2 ^ 8 % 256)).outb .hcyl
    (lba / 2 ^ 16 % 256)

def lba28 (t : TaskFile) : Nat :=
  t.select % 16 * 2 ^ 24 + t.last .hcyl * 2 ^ 16 + t.last .lcyl * 2 ^ 8 + t.last .sector

def lba48 (t : TaskFile) : Nat :=
  t.prev .hcyl * 2 ^ 40 + t.prev .lcyl * 2 ^ 32 + t.prev .sector * 2 ^ 24 + t.last .hcyl * 2 ^ 16 +
    t.last .lcyl * 2 ^ 8 + t.last .sector

def count28 (t : TaskFile) : Nat := if t.last .nsect = 0 then 256 else t.last .nsect

def count48 (t : TaskFile) : Nat :=
  if t.prev .nsect * 256 + t.last .nsect = 0 then 65536 else t.prev .nsect * 256 + t.last .nsect

end TaskFile

/-- A command that was carried out: the first sector and the number of sectors programmed, and the place in the
buffer. -/
structure Exchange where
  sector : Nat
  count : Nat
  offset : Nat
deriving DecidableEq

/-- The drive, the buffer, the commands so far and the variable `used_lba48`. -/
structure Xfer where
  regs : TaskFile
  media : Nat → Mem
  buffer : Mem
  log : List Exchange
  usedLba48 : Bool

/-- The words of a sector go into the buffer, or out of it; an odd place goes through `tmp_sector_words`. -/
def Xfer.exchange (x : Xfer) (disk : Disk) (e : Exchange) : Transfer → Xfer
  | .read =>
      { x with buffer := blit x.buffer e.offset (disk.sectorSize / 2 * 2) (x.media e.sector), log := x.log ++ [e] }
  | .write => { x with
      media := Function.update x.media e.sector
        (blit (x.media e.sector) 0 (disk.sectorSize / 2 * 2) (fun o => x.buffer (e.offset + o)))
      log := x.log ++ [e] }

/-- What the calls that wait for the drive return: for sector `i` of the transfer, the `k`-th of them. -/
abbrev Waits := Nat → Nat → Int

def useLba48 (disk : Disk) (curLba : Nat) : Bool := disk.supportsLba48 && decide (0x0FFFFFFF < curLba)

/-- The registers for one sector at `curLba`, and the command that they make. -/
def program (disk : Disk) (regs : TaskFile) (curLba offset : Nat) : TaskFile × Exchange :=
  if useLba48 disk curLba = true then
    let regs := regs.setupLba48 curLba 1 disk.drive
    (regs, ⟨regs.lba48, regs.count48, offset⟩)
  else
    let regs := regs.setupLba28 (u32 curLba) 1 disk.drive
    (regs, ⟨regs.lba28, regs.count28, offset⟩)

def sectorTurn (op : Transfer) (disk : Disk) (waits : Waits) (lba done ptr s : Nat) (x : Xfer) : Xfer × Flow Int :=
  let curLba := u64 (lba + done + s)
  let cmd := program disk x.regs curLba (ptr + (done + s) * disk.sectorSize)
  let x := { x with regs := cmd.1, usedLba48 := x.usedLba48 || useLba48 disk curLba }
  if waits (done + s) 0 ≠ ok then (x, .ret (waits (done + s) 0))
  else if waits (done + s) 1 ≠ ok then (x, .ret (waits (done + s) 1))
  else
    match op with
    | .read => (x.exchange disk cmd.2 .read, .next)
    | .write =>
      if waits (done + s) 2 ≠ ok then (x.exchange disk cmd.2 .write, .ret errTimeout)
      else if waits (done + s) 3 ≠ ok then (x.exchange disk cmd.2 .write, .ret errDevice)
      else (x.exchange disk cmd.2 .write, .next)

/-- The loop over the chunks, at most `fuel` of them. -/
def chunkLoop (op : Transfer) (disk : Disk) (waits : Waits) (count : Nat) : Nat → Nat → Nat → Nat → Xfer →
    Xfer × Option Int
  | 0, _, _, _, x => (x, none)
  | fuel + 1, lba, remaining, ptr, x =>
    if remaining = 0 then (x, none)
    else
      let chunk := if 256 < remaining then 256 else remaining
      match forLoop (sectorTurn op disk waits lba (count - remaining) ptr) chunk 0 x with
      | (x, some rc) => (x, some rc)
      | (x, none) => chunkLoop op disk waits count fuel (u64 (lba + chunk)) (remaining - chunk)
          (ptr + chunk * disk.sectorSize) x

/-- `ide_read_sectors` and `ide_write_sectors`, whose loops differ in the commands, in the direction and in the waits.
A chunk has a sector at least, so there are no more chunks than sectors. -/
def transfer (op : Transfer) (disk : Disk) (waits : Waits) (lba count : Nat) (x : Xfer) : Xfer × Int :=
  if count = 0 then (x, errInvalid)
  else if disk.totalSectors ≠ 0 ∧ sub64 disk.totalSectors count < lba then (x, errInvalid)
  else
    match chunkLoop op disk waits count count lba count 0 x, op with
    | (x, some rc), _ => (x, rc)
    | (x, none), .read => (x, ok)
    | (x, none), .write =>
      if waits count 0 ≠ ok then (x, errTimeout)
      else if waits count 1 ≠ ok then (x, errDevice)
      else (x, ok)

def ideReadSectors (disk : Disk) (waits : Waits) (lba count : Nat) (x : Xfer) : Xfer × Int :=
  transfer .read disk waits lba count x

def ideWriteSectors (disk : Disk) (waits : Waits) (lba count : Nat) (x : Xfer) : Xfer × Int :=
  transfer .write disk waits lba count x

/-! ## The programmed address -/

theorem lba28_setup (t : TaskFile) (lba count drive : Nat) : (t.setupLba28 lba count drive).lba28 = lba % 2 ^ 28 := by
  simp only [TaskFile.lba28, TaskFile.setupLba28, TaskFile.outb, TaskFile.selectDevice, Function.update_apply]
  simp only [reduceCtorEq, if_true, if_false]
  omega

theorem count28_setup (t : TaskFile) (lba drive : Nat) : (t.setupLba28 lba 1 drive).count28 = 1 := by
  simp [TaskFile.count28, TaskFile.setupLba28, TaskFile.outb]

theorem lba48_setup (t : TaskFile) (lba count drive : Nat) : (t.setupLba48 lba count drive).lba48 = lba % 2 ^ 48 := by
  simp only [TaskFile.lba48, TaskFile.setupLba48, TaskFile.outb, Function.update_apply]
  simp only [reduceCtorEq, if_true, if_false]
  omega

theorem count48_setup (t : TaskFile) (lba drive : Nat) : (t.setupLba48 lba 1 drive).count48 = 1 := by
  simp [TaskFile.count48, TaskFile.setupLba48, TaskFile.outb]

def programmed (disk : Disk) (curLba : Nat) : Nat :=
  if useLba48 disk curLba = true then curLba % 2 ^ 48 else curLba % 2 ^ 28

theorem program_snd (disk : Disk) (regs : TaskFile) (curLba offset : Nat) :
    (program disk regs curLba offset).2 = ⟨programmed disk curLba, 1, offset⟩ := by
  unfold program programmed
  split
  · dsimp only
    rw [lba48_setup, count48_setup]
  · dsimp only
    rw [lba28_setup, count28_setup]
    have hmod : u32 curLba % 2 ^ 28 = curLba % 2 ^ 28 := mod_mod_of_dvd _ (by decide)
    rw [hmod]

def limit (disk : Disk) : Nat := if disk.supportsLba48 then 2 ^ 48 else 2 ^ 28

theorem programmed_lt (disk : Disk) (curLba : Nat) : programmed disk curLba < limit disk := by
  unfold programmed limit useLba48
  cases disk.supportsLba48 with
  | false => exact mod_lt _ (by decide)
  | true =>
    split
    · exact mod_lt _ (by decide)
    · exact lt_trans (mod_lt _ (by decide)) (by decide)

theorem programmed_of_lt {disk : Disk} {curLba : Nat} (h : curLba < limit disk) : programmed disk curLba = curLba := by
  revert h
  unfold programmed limit useLba48
  cases disk.supportsLba48 with
  | false => exact fun h => mod_eq_of_lt h
  | true =>
    intro h
    split
    · exact mod_eq_of_lt h
    · rename_i hlow
      have hle : ¬ 0x0FFFFFFF < curLba := fun hlt => hlow (decide_eq_true hlt)
      exact mod_eq_of_lt (by omega)

theorem limit_le (disk : Disk) : limit disk ≤ 2 ^ 48 := by
  unfold limit
  split
  · exact le_rfl
  · decide

/-! ## One sector, one chunk, one transfer -/

section
variable {op : Transfer} {disk : Disk} {waits : Waits} {lba done ptr s count : Nat} {x x₀ : Xfer}

/-- **One turn**: an error is returned, or one command was carried out. -/
theorem sectorTurn_post {I E : Xfer → Prop}
    (hnext : ∀ regs used, I ({ x with regs := regs, usedLba48 := used }.exchange disk
      ⟨programmed disk (u64 (lba + done + s)), 1, ptr + (done + s) * disk.sectorSize⟩ op)) :
    BodyPost I E (fun _ rc => rc ≠ ok) (sectorTurn op disk waits lba done ptr s x) := by
  unfold BodyPost sectorTurn
  dsimp only
  rw [program_snd]
  by_cases h0 : waits (done + s) 0 ≠ ok
  · rwa [if_pos h0]
  rw [if_neg h0]
  by_cases h1 : waits (done + s) 1 ≠ ok
  · rwa [if_pos h1]
  rw [if_neg h1]
  cases op with
  | read => exact hnext _ _
  | write =>
    by_cases h2 : waits (done + s) 2 ≠ ok
    · simp only [if_pos h2]
      decide
    by_cases h3 : waits (done + s) 3 ≠ ok
    · simp only [if_neg h2, if_pos h3]
      decide
    · simp only [if_neg h2, if_neg h3]
      exact hnext _ _

def commands (disk : Disk) (lba k : Nat) : List Exchange :=
  (List.range k).map (fun i => ⟨programmed disk (u64 (lba + i)), 1, 512 * i⟩)

theorem commands_succ (disk : Disk) (lba k : Nat) : commands disk lba (k + 1) =
    commands disk lba k ++ [⟨programmed disk (u64 (lba + k)), 1, 512 * k⟩] := by
  unfold commands
  rw [range_succ, map_append]
  rfl

/-- `k` sectors from `lba` on are exchanged with the start of the buffer, and nothing else. -/
def Moved (x₀ x : Xfer) (lba k : Nat) : Transfer → Prop
  | .read => x.media = x₀.media ∧ Sectors.Filled 512 x₀.media x₀.buffer x.buffer lba k
  | .write => x.buffer = x₀.buffer ∧ Sectors.Laid 512 x₀.buffer x₀.media x.media lba k

theorem Moved.start (x₀ : Xfer) (lba : Nat) : ∀ op, Moved x₀ x₀ lba 0 op
  | .read => ⟨rfl, Sectors.Filled.zero _ _ _ _⟩
  | .write => ⟨rfl, Sectors.Laid.zero _ _ _ _⟩

theorem Moved.exchange {k : Nat} {regs : TaskFile} {used : Bool} (h512 : disk.sectorSize = 512) : ∀ {op : Transfer},
    Moved x₀ x lba k op → Moved x₀ ({ x with regs := regs, usedLba48 := used }.exchange disk ⟨lba + k, 1, 512 * k⟩ op)
      lba (k + 1) op
  | .read, ⟨hmedia, hbuf⟩ => by
    refine ⟨hmedia, ?_⟩
    simp only [Xfer.exchange, h512, hmedia]
    exact hbuf.next
  | .write, ⟨hbuf, hmedia⟩ => by
    refine ⟨hbuf, ?_⟩
    simp only [Xfer.exchange, h512, hbuf]
    exact hmedia.next

/-- **One chunk from the start of the buffer.** -/
theorem sectorLoop_post (h512 : disk.sectorSize = 512) : LoopPost
    (fun x => x.log = x₀.log ++ commands disk lba count ∧ (lba + count ≤ limit disk → Moved x₀ x lba count op))
    (fun _ rc => rc ≠ ok) (forLoop (sectorTurn op disk waits lba 0 0) count 0 x₀) := by
  refine forLoop_rule (fun k x => x.log = x₀.log ++ commands disk lba k ∧ (lba + k ≤ limit disk → Moved x₀ x lba k op))
    _ _ _ ⟨(append_nil _).symm, fun _ => Moved.start x₀ lba op⟩ (fun x hx => by rwa [zero_add] at hx) ?_
  rintro k x - - ⟨hlog, hmoved⟩
  refine sectorTurn_post (fun regs used => ?_)
  rw [add_zero, zero_add, zero_add, h512, mul_comm k 512]
  constructor
  · rw [commands_succ, ← append_assoc, ← hlog]
    cases op <;> rfl
  intro hlim
  have hlt : lba + k < limit disk := by omega
  have hmax := limit_le disk
  rw [u64_of_lt (by omega), programmed_of_lt hlt]
  exact (hmoved (by omega)).exchange h512

theorem chunkLoop_single (hpos : 0 < count) (hle : count ≤ 256) :
    chunkLoop op disk waits count count lba count 0 x = forLoop (sectorTurn op disk waits lba 0 0) count 0 x := by
  obtain ⟨fuel, rfl⟩ : ∃ fuel, count = fuel + 1 := ⟨count - 1, by omega⟩
  rw [chunkLoop, if_neg (succ_ne_zero fuel)]
  dsimp only
  rw [if_neg (by omega), Nat.sub_self]
  rcases forLoop (sectorTurn op disk waits lba 0 0) (fuel + 1) 0 x with ⟨x', _ | rc⟩
  · cases fuel with
    | zero => rfl
    | succ fuel => exact if_pos rfl
  · rfl

/-- The place of every command is in the first half of a stretch of 512 sectors. -/
def Spread (x : Xfer) : Prop := ∀ e ∈ x.log, e.offset % 262144 < 131072

theorem Spread.exchange {e : Exchange} (h : Spread x) (he : e.offset % 262144 < 131072) :
    Spread (x.exchange disk e op) := by
  have hlog : (x.exchange disk e op).log = x.log ++ [e] := by cases op <;> rfl
  intro e' he'
  rw [hlog] at he'
  rcases mem_append.1 he' with hmem | hmem
  · exact h e' hmem
  · rwa [mem_singleton.1 hmem]

/-- **Every chunk goes on where the one before would have been twice as long.** -/
theorem chunkLoop_post (h512 : disk.sectorSize = 512) : ∀ (fuel lba remaining ptr : Nat) (x : Xfer), remaining ≤ count →
    (count - remaining) % 256 = 0 → ptr = 512 * (count - remaining) → Spread x →
    LoopPost Spread (fun _ rc => rc ≠ ok) (chunkLoop op disk waits count fuel lba remaining ptr x)
  | 0, _, _, _, _, _, _, _, h => ⟨fun _ => h, nofun⟩
  | fuel + 1, lba, remaining, ptr, x, hle, hmod, hptr, h => by
    unfold chunkLoop
    split
    · exact ⟨fun _ => h, nofun⟩
    dsimp only
    have hpost : LoopPost Spread (fun _ rc => rc ≠ ok) (forLoop (sectorTurn op disk waits lba (count - remaining) ptr)
        (if 256 < remaining then 256 else remaining) 0 x) := by
      refine forLoop_rule (fun _ => Spread) _ _ _ h (fun _ hx => hx)
        (fun k x' _ hk hx => sectorTurn_post (fun _ _ => ?_))
      refine Spread.exchange hx ?_
      rw [h512]
      dsimp only
      have hk256 : k < 256 := by split at hk <;> omega
      omega
    revert hpost
    rcases forLoop (sectorTurn op disk waits lba (count - remaining) ptr)
      (if 256 < remaining then 256 else remaining) 0 x
      with ⟨x', _ | rc'⟩
    · rintro ⟨hend, -⟩
      by_cases hbig : 256 < remaining
      · simp only [if_pos hbig]
        exact chunkLoop_post h512 fuel _ _ _ x' (by omega) (by omega) (by omega) (hend rfl)
      · simp only [if_neg hbig, Nat.sub_self]
        cases fuel <;> exact ⟨fun _ => hend rfl, nofun⟩
    · exact id

theorem transfer_ok {x' : Xfer} (hret : ∀ rc, (chunkLoop op disk waits count count lba count 0 x).2 = some rc → rc ≠ ok)
    (h : transfer op disk waits lba count x = (x', ok)) : 0 < count ∧
    (disk.totalSectors ≠ 0 → lba ≤ sub64 disk.totalSectors count) ∧
    chunkLoop op disk waits count count lba count 0 x = (x', none) := by
  unfold transfer at h
  split at h
  · simp [errInvalid, ok] at h
  rename_i hcount
  split at h
  · simp [errInvalid, ok] at h
  rename_i hcheck
  refine ⟨Nat.pos_of_ne_zero hcount, fun htotal => not_lt.1 (fun hlt => hcheck ⟨htotal, hlt⟩), ?_⟩
  revert h hret
  rcases chunkLoop op disk waits count count lba count 0 x with ⟨y, _ | rc⟩
  · intro _ h
    cases op with
    | read =>
      cases h
      rfl
    | write =>
      dsimp only at h
      split at h
      · simp [errTimeout, ok] at h
      split at h
      · simp [errDevice, ok] at h
      · cases h
        rfl
  · intro hret h
    exact absurd (congrArg Prod.snd h) (hret rc rfl)

/-- **The transfer is the one asked for**: one command for each sector, with its place in the buffer, and no other; the
bytes are where they belong, and no sector is beyond the end of the disk. -/
structure Mapped (disk : Disk) (x₀ x : Xfer) (lba count : Nat) (op : Transfer) : Prop where
  all : ∀ i, i < count → ⟨lba + i, 1, 512 * i⟩ ∈ x.log
  only : ∀ e ∈ x.log, ∃ i, i < count ∧ e = ⟨lba + i, 1, 512 * i⟩
  bytes : Moved x₀ x lba count op
  inside : disk.totalSectors ≠ 0 → ∀ e ∈ x.log, e.sector < disk.totalSectors

/-- One chunk, sectors that can be addressed, and no more of them than the disk has. -/
structure Fitting (disk : Disk) (lba count : Nat) : Prop where
  chunk : count ≤ 256
  address : lba + count ≤ limit disk
  size : disk.totalSectors ≠ 0 → count ≤ disk.totalSectors

theorem mapped_iff (h512 : disk.sectorSize = 512) (htotal : disk.totalSectors < 2 ^ 64) (hlog : x₀.log = [])
    (h : transfer op disk waits lba count x₀ = (x, ok)) : Mapped disk x₀ x lba count op ↔ Fitting disk lba count := by
  have hpost := @chunkLoop_post op disk waits count h512 count lba count 0 x₀ le_rfl (by rw [Nat.sub_self])
    (by rw [Nat.sub_self]) (by intro e he; rw [hlog] at he; cases he)
  obtain ⟨hpos, hcheck, hchunks⟩ := transfer_ok hpost.2 h
  -- the commands, and the bytes if they can be addressed, of a transfer of one chunk
  have hsingle : count ≤ 256 → x.log = commands disk lba count ∧ (lba + count ≤ limit disk → Moved x₀ x lba count op) :=
    fun hle => by
      rw [chunkLoop_single hpos hle] at hchunks
      have hpost := @sectorLoop_post op disk waits lba count x₀ h512
      rw [hchunks, hlog] at hpost
      exact hpost.1 rfl
  constructor
  · intro hm
    have hle : count ≤ 256 := by
      refine not_lt.1 (fun hgt => ?_)
      rw [hchunks] at hpost
      have hoffset : 512 * 256 % 262144 < 131072 := hpost.1 rfl _ (hm.all 256 hgt)
      exact absurd hoffset (by decide)
    have hlast := hm.all (count - 1) (by omega)
    refine ⟨hle, ?_, fun hne => ?_⟩
    · rw [(hsingle hle).1] at hlast
      obtain ⟨j, -, hj⟩ := mem_map.1 hlast
      have hlt := programmed_lt disk (u64 (lba + j))
      rw [(Exchange.mk.inj hj).1] at hlt
      omega
    · have hlt := hm.inside hne _ hlast
      dsimp only at hlt
      omega
  · rintro ⟨hle, haddr, hsize⟩
    obtain ⟨hcmds, hmoved⟩ := hsingle hle
    have hmax := limit_le disk
    have hentry : ∀ i, i < count → programmed disk (u64 (lba + i)) = lba + i := fun i hi => by
      rw [u64_of_lt (by omega), programmed_of_lt (by omega)]
    have honly : ∀ e ∈ x.log, ∃ i, i < count ∧ e = ⟨lba + i, 1, 512 * i⟩ := fun e he => by
      rw [hcmds] at he
      obtain ⟨i, hi, rfl⟩ := mem_map.1 he
      have hi := mem_range.1 hi
      exact ⟨i, hi, by rw [hentry i hi]⟩
    refine ⟨fun i hi => ?_, honly, hmoved haddr, fun hne e he => ?_⟩
    · rw [hcmds]
      exact mem_map.2 ⟨i, mem_range.2 hi, by rw [hentry i hi]⟩
    obtain ⟨i, hi, rfl⟩ := honly e he
    have hbound := hcheck hne
    rw [sub64_of_le htotal (hsize hne)] at hbound
    dsimp only
    omega

/-- **IDE transfers**: a read or a write that reports success has exchanged the sectors it was asked for exactly when
they are at most 256, can be addressed and are not more than the disk has. -/
theorem ide_iff (h512 : disk.sectorSize = 512) (htotal : disk.totalSectors < 18446744073709551616)
    (hlog : x₀.log = []) :
    (ideReadSectors disk waits lba count x₀ = (x, ok) → (Mapped disk x₀ x lba count .read ↔ Fitting disk lba count)) ∧
    (ideWriteSectors disk waits lba count x₀ = (x, ok) →
      (Mapped disk x₀ x lba count .write ↔ Fitting disk lba count)) :=
  ⟨fun h => mapped_iff h512 htotal hlog h, fun h => mapped_iff h512 htotal hlog h⟩

end

/-- A drive with all registers zero and a medium whose sectors have their number in the first byte. -/
def freshXfer : Xfer where
  regs := { last := fun _ => 0, prev := fun _ => 0, select := 0 }
  media := fun sec o => if o = 0 then BitVec.ofNat 8 sec else 0#8
  buffer := fun _ => 0#8
  log := []
  usedLba48 := false

def smallDisk : Disk := { drive := 0, totalSectors := 1000, sectorSize := 512, supportsLba48 := false }

theorem ide_iff_three : ∃ x y, ideReadSectors smallDisk (fun _ _ => ok) 5 3 freshXfer = (x, ok) ∧
    (Mapped smallDisk freshXfer x 5 3 .read ↔ Fitting smallDisk 5 3) ∧
    ideWriteSectors smallDisk (fun _ _ => ok) 5 3 freshXfer = (y, ok) ∧
    (Mapped smallDisk freshXfer y 5 3 .write ↔ Fitting smallDisk 5 3) := by
  have hread : ∃ x, ideReadSectors smallDisk (fun _ _ => ok) 5 3 freshXfer = (x, ok) := ⟨_, rfl⟩
  have hwrite : ∃ y, ideWriteSectors smallDisk (fun _ _ => ok) 5 3 freshXfer = (y, ok) := ⟨_, rfl⟩
  obtain ⟨x, hx⟩ := hread
  obtain ⟨y, hy⟩ := hwrite
  exact ⟨x, y, hx, (ide_iff rfl (by decide) rfl).1 hx, hy, (ide_iff rfl (by decide) rfl).2 hy⟩

/-- The last of 257 sectors is taken from 256 sectors further on, and put 256 sectors further on. -/
theorem second_chunk_astray : ∃ x, ideReadSectors smallDisk (fun _ _ => ok) 0 257 freshXfer = (x, ok) ∧
    x.log.getLast? = some ⟨512, 1, 512 * 512⟩ ∧ ¬ Mapped smallDisk freshXfer x 0 257 .read := by
  have hcode : (ideReadSectors smallDisk (fun _ _ => ok) 0 257 freshXfer).2 = ok := by decide +kernel
  have hlast : (ideReadSectors smallDisk (fun _ _ => ok) 0 257 freshXfer).1.log.getLast? =
      some ⟨512, 1, 512 * 512⟩ := by
    decide +kernel
  have hrun : ideReadSectors smallDisk (fun _ _ => ok) 0 257 freshXfer =
      ((ideReadSectors smallDisk (fun _ _ => ok) 0 257 freshXfer).1, ok) := Prod.ext rfl hcode
  refine ⟨_, hrun, hlast, fun hm => ?_⟩
  exact absurd ((mapped_iff rfl (by decide) rfl hrun).1 hm).chunk (by decide)

end Ide
end OS64
