import OS64.FatPersist
import OS64.FatSteps
/-!
# FatRemount — what a new mount sees after a sync

`fat32_sync` writes the FAT and then the FSInfo sector, at the places the boot sector names.  A mount reads the boot
sector first, so the two must leave it alone, and the second must leave the first alone (`remount_iff`).
-/
namespace OS64

open Nat

namespace Fat32

/-- A volume mounted with the boot parameters `b`: what they determine, and the widths of what they do not. -/
structure Volume (b : Bpb) (v : Fat32) : Prop where
  shape : v = { ofBpb v.dev b v.fatCache (v.freeCount, v.nextFree) with dirty := v.dirty }
  cache : ∀ c, v.fatCache c < 4294967296
  freeCount : v.freeCount < 4294967296
  nextFree : v.nextFree < 4294967296
  ready : v.dev.ready = true
  sector512 : v.dev.sectorSize = 512
  accepted : b.Accepted
  reserved : b.reservedSectors < 65536
  info : b.fsInfo < 65536
  size : b.fatSize32 < 8388608
  fat : b.reservedSectors + b.fatSize32 ≤ v.dev.totalSectors

/-- A new mount succeeds and sees the boot parameters, the FAT and the FSInfo of the volume. -/
def Remounted (b : Bpb) (v : Fat32) : Prop :=
  ∃ v' root, mount v.sync.dev = .ok (some (b, v', root)) ∧ (∀ c, c < v.fatEntries → v'.fatCache c = v.fatCache c) ∧
    v'.freeCount = v.freeCount ∧ v'.nextFree = v.nextFree

/-- There is an FSInfo sector, it is none of the FAT's (or holds there what the FAT does), and the sector that will be
sector 0 holds the boot parameters. -/
structure RemountFits (b : Bpb) (v : Fat32) : Prop where
  info : v.fsinfoSector ≠ 0
  apart : v.fatStart ≤ v.fsinfoSector → v.fsinfoSector < v.fatStart + v.fatSize32 →
    ∀ o, o < 512 → v.fatBytes (512 * (v.fsinfoSector - v.fatStart) + o) = v.fsinfoBytes o
  boot : Bpb.ofSector (if v.fatStart = 0 then v.fatBytes else v.dev.data) = b

section
variable {b : Bpb} {v w : Fat32} {root : Inode} {dev : BlockDev}

/-! ## Every step keeps the shape of a mounted volume -/

theorem totalSectors_write (dev : BlockDev) (lba count : Nat) (src : Mem) :
    (dev.write lba count src).totalSectors = dev.totalSectors := by
  unfold BlockDev.write
  split <;> rfl

theorem ready_write (dev : BlockDev) (lba count : Nat) (src : Mem) : (dev.write lba count src).ready = dev.ready := by
  unfold BlockDev.write
  split <;> rfl

theorem Volume.withDev (h : Volume b v) {d : BlockDev} (hr : d.ready = v.dev.ready)
    (hs : d.sectorSize = v.dev.sectorSize)
    (ht : d.totalSectors = v.dev.totalSectors) (dirty : Bool) : Volume b { v with dev := d, dirty := dirty } where
  shape := congrArg (fun u : Fat32 => { u with dev := d, dirty := dirty }) h.shape
  cache := h.cache
  freeCount := h.freeCount
  nextFree := h.nextFree
  ready := hr.trans h.ready
  sector512 := hs.trans h.sector512
  accepted := h.accepted
  reserved := h.reserved
  info := h.info
  size := h.size
  fat := by
    rw [ht]
    exact h.fat

theorem Volume.withFat (h : Volume b v) {cache : Nat → Nat} {count next : Nat} (dirty : Bool)
    (hc : ∀ c, cache c < 2 ^ 32) (hcount : count < 2 ^ 32) (hnext : next < 2 ^ 32) :
    Volume b { v with fatCache := cache, freeCount := count, nextFree := next, dirty := dirty } where
  shape := congrArg
    (fun u : Fat32 => { u with fatCache := cache, freeCount := count, nextFree := next, dirty := dirty })
    h.shape
  cache := hc
  freeCount := hcount
  nextFree := hnext
  ready := h.ready
  sector512 := h.sector512
  accepted := h.accepted
  reserved := h.reserved
  info := h.info
  size := h.size
  fat := h.fat

theorem update_lt {cache : Nat → Nat} (h : ∀ c, cache c < 2 ^ 32) {x : Nat} (hx : x < 2 ^ 32) (c d : Nat) :
    Function.update cache c x d < 2 ^ 32 := by
  by_cases hd : d = c
  · rwa [hd, Function.update_self]
  · rw [Function.update_of_ne hd]
    exact h d

/-- **One step.** -/
theorem Volume.step (hs : Step v w) (h : Volume b v) : Volume b w := by
  cases hs with
  | take c =>
    refine h.withFat true (update_lt h.cache (by decide) c) (sub32_lt _ _) ?_
    split
    · decide
    · exact u32_lt _
  | release c => exact h.withFat true (update_lt h.cache (by decide) c) (u32_lt _) h.nextFree
  | link c x hx => exact h.withFat v.dirty (update_lt h.cache hx c) h.freeCount h.nextFree
  | data c buf =>
    unfold writeCluster
    split
    · exact h
    · exact h.withDev (ready_write ..) (sectorSize_write ..) (totalSectors_write ..) v.dirty
  | sync =>
    by_cases hd : v.dirty = false
    · rwa [sync_clean hd]
    · rw [sync_dirty hd]
      exact h.withDev ((ready_write ..).trans (ready_write ..)) ((sectorSize_write ..).trans (sectorSize_write ..))
        ((totalSectors_write ..).trans (totalSectors_write ..)) false

theorem Bpb.ofSector_congr {m m' : Mem} (h : ∀ o, o < 512 → m' o = m o) : Bpb.ofSector m' = Bpb.ofSector m := by
  have hload : ∀ a k, a + k ≤ 512 → load m' a k = load m a k := fun a k hk => load_congr (fun i hi => h _ (by omega))
  unfold Bpb.ofSector
  simp only [hload 11 2 (by decide), hload 13 1 (by decide), hload 14 2 (by decide), hload 16 1 (by decide),
    hload 32 4 (by decide), hload 36 4 (by decide), hload 44 4 (by decide), hload 48 2 (by decide)]

theorem mount_cases (h512 : dev.sectorSize = 512) {b : Bpb} {v : Fat32}
    (h : mount dev = .ok (some (b, v, root))) : dev.ready = true ∧ b = Bpb.ofSector dev.data ∧ b.Accepted ∧
      b.fatSize32 < 8388608 ∧ b.reservedSectors + b.fatSize32 ≤ dev.totalSectors ∧
      v = ofBpb dev b (fatOf (fun o => dev.data (512 * b.reservedSectors + o)))
        (fsinfoOf dev b (fatOf (fun o => dev.data (512 * b.reservedSectors + o)))) := by
  unfold mount BlockDev.read at h
  by_cases hread : dev.ready = true ∧ u64 (0 + 1) ≤ dev.totalSectors
  · rw [if_pos hread, h512] at h
    simp only [mul_zero, zero_add] at h
    by_cases hacc : (Bpb.ofSector dev.data).Accepted
    · rw [if_neg (not_not_intro hacc)] at h
      by_cases hsize : 8388608 ≤ (Bpb.ofSector dev.data).fatSize32
      · rw [if_pos hsize] at h
        split at h <;> cases h
      rw [if_neg hsize] at h
      have hres : (Bpb.ofSector dev.data).reservedSectors < 65536 := load_lt dev.data 2 14
      by_cases hfat : dev.ready = true ∧ u64 ((Bpb.ofSector dev.data).reservedSectors +
          (Bpb.ofSector dev.data).fatSize32) ≤ dev.totalSectors
      · rw [if_pos hfat] at h
        cases h
        have hle := hfat.2
        rw [u64_of_lt (by omega)] at hle
        exact ⟨hread.1, rfl, hacc, not_le.1 hsize, hle, rfl⟩
      · rw [if_neg hfat] at h
        cases h
    · rw [if_pos hacc] at h
      cases h
  · rw [if_neg hread] at h
    cases h

theorem mount_volume (h512 : dev.sectorSize = 512) (h : mount dev = .ok (some (b, v, root))) : Volume b v := by
  obtain ⟨hready, hb, hacc, hsize, hfat, rfl⟩ := mount_cases h512 h
  have hinfo : (fsinfoOf dev b (fatOf (fun o => dev.data (512 * b.reservedSectors + o)))).1 < 2 ^ 32 ∧
      (fsinfoOf dev b (fatOf (fun o => dev.data (512 * b.reservedSectors + o)))).2 < 2 ^ 32 := by
    unfold fsinfoOf
    split
    · refine ⟨?_, (by decide : 2 < 2 ^ 32)⟩
      have hle := List.length_filter_le (fun i => decide (2 ≤ i ∧
        fatOf (fun o => dev.data (512 * b.reservedSectors + o)) i = free)) (List.range b.fatEntries)
      have hlt := u32_lt (b.fatSize32 * 512)
      unfold countFree
      rw [List.length_range] at hle
      unfold Bpb.fatEntries at *
      omega
    · split
      · exact ⟨(by decide : 0 < 2 ^ 32), (by decide : 0 < 2 ^ 32)⟩
      · exact ⟨load_lt _ 4 488, load_lt _ 4 492⟩
  exact { shape := rfl, cache := fun c => load_lt _ 4 _, freeCount := hinfo.1, nextFree := hinfo.2, ready := hready,
          sector512 := h512, accepted := hacc, reserved := by rw [hb]; exact load_lt dev.data 2 14,
          info := by rw [hb]; exact load_lt dev.data 2 48, size := hsize, fat := hfat }

/-! ## The device after a sync -/

theorem Volume.fields (h : Volume b v) : v.fatStart = b.reservedSectors ∧ v.fatSize32 = b.fatSize32 ∧
    v.fsinfoSector = b.fsInfo ∧ v.fatEntries = 128 * b.fatSize32 := by
  have hsize := h.size
  have hshape := h.shape
  refine ⟨congrArg Fat32.fatStart hshape, congrArg Fat32.fatSize32 hshape, congrArg Fat32.fsinfoSector hshape, ?_⟩
  have hentries : v.fatEntries = b.fatEntries := congrArg Fat32.fatEntries hshape
  rw [hentries]
  unfold Bpb.fatEntries
  rw [u32_of_lt (by omega)]
  omega

section
variable (h : Volume b v) (hdirty : v.dirty = true) (hinfo : b.fsInfo + 1 ≤ v.dev.totalSectors)
include h hdirty hinfo

theorem data_sync :
    v.sync.dev.data = blit (blit v.dev.data (512 * b.reservedSectors) (512 * b.fatSize32) v.fatBytes)
      (512 * b.fsInfo) 512
      v.fsinfoBytes := by
  obtain ⟨h1, h2, h3, -⟩ := h.fields
  have hres := h.reserved
  have hsize := h.size
  have hi := h.info
  have hfat : v.dev.ready = true ∧ u64 (b.reservedSectors + b.fatSize32) ≤ v.dev.totalSectors := by
    refine ⟨h.ready, ?_⟩
    rw [u64_of_lt (by omega)]
    exact h.fat
  have hsecond : v.dev.ready = true ∧ u64 (b.fsInfo + 1) ≤ v.dev.totalSectors := by
    refine ⟨h.ready, ?_⟩
    rwa [u64_of_lt (by omega)]
  rw [sync_dirty (by rw [hdirty]; decide), h1, h2, h3]
  unfold BlockDev.write
  rw [if_pos hfat]
  rw [if_pos hsecond, h.sector512]

theorem sector_sync {o : Nat} (ho : o < 512) : v.sync.dev.data o = if b.fsInfo = 0 then v.fsinfoBytes o
      else if b.reservedSectors = 0 then v.fatBytes o else v.dev.data o := by
  have hpos : 0 < b.fatSize32 := Nat.pos_of_ne_zero h.accepted.2.2
  rw [data_sync h hdirty hinfo]
  unfold blit
  by_cases h0 : b.fsInfo = 0
  · rw [if_pos (by omega), h0]
    rfl
  rw [if_neg (by omega), if_neg h0]
  by_cases hr : b.reservedSectors = 0
  · rw [if_pos (by omega), hr]
    rfl
  · rw [if_neg (by omega), if_neg hr]

end

theorem load_fatBytes (v : Fat32) {c : Nat} (h : v.fatCache c < 2 ^ 32) : load v.fatBytes (4 * c) 4 = v.fatCache c := by
  have hb : ∀ i, i < 4 → (v.fatBytes (4 * c + i)).toNat = v.fatCache c / 256 ^ i % 256 := fun i hi => by
    have hdiv : (4 * c + i) / 4 = c := by omega
    have hmod : (4 * c + i) % 4 = i := by omega
    unfold fatBytes
    rw [hdiv, hmod, BitVec.toNat_ofNat]
  rw [load_of_bytes hb]
  exact mod_eq_of_lt h

theorem load_fsinfoBytes (v : Fat32) : load v.fsinfoBytes 488 4 = v.freeCount % 2 ^ 32 ∧
    load v.fsinfoBytes 492 4 = v.nextFree % 2 ^ 32 := by
  unfold fsinfoBytes
  constructor
  · rw [load_store_apart _ (by omega), load_store_apart _ (by omega)]
    exact load_store ..
  · rw [load_store_apart _ (by omega)]
    exact load_store ..

theorem fsinfoBytes_not_accepted (v : Fat32) : ¬ (Bpb.ofSector v.fsinfoBytes).Accepted := by
  rintro ⟨h, -⟩
  have hzero : load v.fsinfoBytes 11 2 = load blank 11 2 := by
    refine load_congr (fun i hi => ?_)
    unfold fsinfoBytes
    simp (disch := omega) only [store_apart]
  have hc : load v.fsinfoBytes 11 2 = 512 := h
  rw [hzero] at hc
  exact absurd hc (by decide)

/-- **The FAT that a mount reads is the one synced** exactly when the FSInfo sector spares it. -/
theorem fat_sync_iff (h : Volume b v) (hdirty : v.dirty = true) (hinfo : b.fsInfo + 1 ≤ v.dev.totalSectors) :
    (∀ c, c < v.fatEntries → fatOf (fun o => v.sync.dev.data (512 * b.reservedSectors + o)) c = v.fatCache c) ↔
      (b.reservedSectors ≤ b.fsInfo → b.fsInfo < b.reservedSectors + b.fatSize32 →
        ∀ o, o < 512 → v.fatBytes (512 * (b.fsInfo - b.reservedSectors) + o) = v.fsinfoBytes o) := by
  obtain ⟨-, -, -, hentries⟩ := h.fields
  have hbyte : ∀ x, x < 512 * b.fatSize32 → v.sync.dev.data (512 * b.reservedSectors + x) =
      if b.reservedSectors ≤ b.fsInfo ∧ 512 * (b.fsInfo - b.reservedSectors) ≤ x ∧
          x < 512 * (b.fsInfo - b.reservedSectors) + 512
      then v.fsinfoBytes (x - 512 * (b.fsInfo - b.reservedSectors)) else v.fatBytes x := fun x hx => by
    rw [data_sync h hdirty hinfo]
    unfold blit
    by_cases hin : b.reservedSectors ≤ b.fsInfo ∧ 512 * (b.fsInfo - b.reservedSectors) ≤ x ∧
        x < 512 * (b.fsInfo - b.reservedSectors) + 512
    · rw [if_pos hin, if_pos (by omega)]
      congr 1
      omega
    · rw [if_neg hin, if_neg (by omega), if_pos (by omega)]
      congr 1
      omega
  constructor
  · intro hall hle hlt o ho
    have hc := hall ((512 * (b.fsInfo - b.reservedSectors) + o) / 4) (by omega)
    rw [← load_fatBytes v (h.cache _)] at hc
    have heq := load_inj hc (o % 4) (by omega)
    have hpos : 4 * ((512 * (b.fsInfo - b.reservedSectors) + o) / 4) + o % 4 =
        512 * (b.fsInfo - b.reservedSectors) + o := by
      omega
    rw [hpos] at heq
    rw [← heq, hbyte _ (by omega), if_pos (by omega), Nat.add_sub_cancel_left]
  · intro hall c hc
    rw [← load_fatBytes v (h.cache c)]
    refine load_congr (fun i hi => ?_)
    rw [hbyte _ (by omega)]
    by_cases hin : b.reservedSectors ≤ b.fsInfo ∧ 512 * (b.fsInfo - b.reservedSectors) ≤ 4 * c + i ∧
        4 * c + i < 512 * (b.fsInfo - b.reservedSectors) + 512
    · have := hall hin.1 (by omega) (4 * c + i - 512 * (b.fsInfo - b.reservedSectors)) (by omega)
      rw [Nat.add_sub_cancel' hin.2.1] at this
      rw [if_pos hin, this]
    · rw [if_neg hin]

theorem mount_ok (h512 : dev.sectorSize = 512) (hready : dev.ready = true) (hone : 1 ≤ dev.totalSectors)
    (hb : Bpb.ofSector dev.data = b) (hacc : b.Accepted) (hsize : b.fatSize32 < 8388608)
    (hres : b.reservedSectors < 65536) (hfat : b.reservedSectors + b.fatSize32 ≤ dev.totalSectors) :
    mount dev = .ok (some (b, ofBpb dev b (fatOf (fun o => dev.data (512 * b.reservedSectors + o)))
      (fsinfoOf dev b (fatOf (fun o => dev.data (512 * b.reservedSectors + o)))), rootInode b)) := by
  have hread : dev.ready = true ∧ u64 (0 + 1) ≤ dev.totalSectors := ⟨hready, hone⟩
  have hread' : dev.ready = true ∧ u64 (b.reservedSectors + b.fatSize32) ≤ dev.totalSectors := by
    refine ⟨hready, ?_⟩
    rwa [u64_of_lt (by omega)]
  unfold mount
  have hsector : dev.read 0 1 = some dev.data := by
    unfold BlockDev.read
    rw [if_pos hread]
    simp only [mul_zero, zero_add]
  have hbytes : dev.read b.reservedSectors b.fatSize32 = some (fun o => dev.data (512 * b.reservedSectors + o)) := by
    unfold BlockDev.read
    rw [if_pos hread', h512]
  rw [hsector]
  simp only [hb, hbytes]
  rw [if_neg (not_not_intro hacc), if_neg (not_le.2 hsize)]

/-- **What a new mount sees**, in any state of a mounted volume with changes to the FAT. -/
theorem remounted_iff (h : Volume b v) (hdirty : v.dirty = true) (hinfo : b.fsInfo + 1 ≤ v.dev.totalSectors) :
    Remounted b v ↔ RemountFits b v := by
  obtain ⟨h1, h2, h3, -⟩ := h.fields
  have hs : Volume b v.sync := h.step (.sync v)
  have hboot : b.fsInfo ≠ 0 → Bpb.ofSector v.sync.dev.data =
      Bpb.ofSector (if v.fatStart = 0 then v.fatBytes else v.dev.data) := fun h0 => by
    refine Bpb.ofSector_congr (fun o ho => ?_)
    rw [sector_sync h hdirty hinfo ho, if_neg h0, h1]
    split <;> rfl
  constructor
  · rintro ⟨v', root, hm, hcache, -, -⟩
    obtain ⟨-, hb, hacc, -, -, rfl⟩ := mount_cases hs.sector512 hm
    have h0 : b.fsInfo ≠ 0 := fun hc => by
      refine fsinfoBytes_not_accepted v ?_
      rw [hb] at hacc
      rwa [Bpb.ofSector_congr (fun o ho => by rw [sector_sync h hdirty hinfo ho, if_pos hc])] at hacc
    refine ⟨by rwa [h3], ?_, (hboot h0).symm.trans hb.symm⟩
    rw [h1, h2, h3]
    exact (fat_sync_iff h hdirty hinfo).1 hcache
  · rintro ⟨h0, hapart, hb⟩
    rw [h3] at h0
    rw [h1, h2, h3] at hapart
    have htotal : v.sync.dev.totalSectors = v.dev.totalSectors := congrArg Geom.totalSectors (geom_sync v)
    have hi := h.info
    have hfsinfo : v.sync.dev.read b.fsInfo 1 = some (fun o => v.sync.dev.data (512 * b.fsInfo + o)) := by
      unfold BlockDev.read
      rw [if_pos ⟨hs.ready, by rwa [u64_of_lt (by omega), htotal]⟩, hs.sector512]
    have hword : ∀ a, a + 4 ≤ 512 → load (fun o => v.sync.dev.data (512 * b.fsInfo + o)) a 4 =
        load v.fsinfoBytes a 4 := by
      intro a ha
      refine load_congr (fun i hi' => ?_)
      rw [data_sync h hdirty hinfo]
      exact blit_at _ _ (by omega)
    refine ⟨_, _, mount_ok hs.sector512 hs.ready (by omega) ((hboot h0).trans hb) h.accepted h.size h.reserved hs.fat,
      (fat_sync_iff h hdirty hinfo).2 hapart, ?_, ?_⟩
    · unfold fsinfoOf
      rw [if_neg h0, hfsinfo]
      dsimp only
      rw [hword 488 (by decide), (load_fsinfoBytes v).1]
      exact mod_eq_of_lt h.freeCount
    · unfold fsinfoOf
      rw [if_neg h0, hfsinfo]
      dsimp only
      rw [hword 492 (by decide), (load_fsinfoBytes v).2]
      exact mod_eq_of_lt h.nextFree

/-- **A new mount after any operations and a sync.** -/
theorem remount_iff {v₀ : Fat32} (h512 : dev.sectorSize = 512) (hm : mount dev = .ok (some (b, v₀, root)))
    (hrun : Relation.ReflTransGen Op v₀ v) (hdirty : v.dirty = true) (hinfo : v.fsinfoSector + 1 ≤ v.dev.totalSectors) :
    Remounted b v ↔ RemountFits b v := by
  have h : Volume b v := run_keeps (fun _ _ hs hv => hv.step hs) hrun (mount_volume h512 hm)
  rw [h.fields.2.2.1] at hinfo
  exact remounted_iff h hdirty hinfo

end

/-- The boot parameters of a small volume: one sector that may be the FSInfo sector, and one of the FAT. -/
def bootBpb (fsInfo : Nat) : Bpb :=
  { bytesPerSector := 512, sectorsPerCluster := 1, reservedSectors := 2, numFats := 1, totalSectors32 := 100
    fatSize32 := 1, rootCluster := 2, fsInfo := fsInfo }

def bootDev (fsInfo : Nat) : BlockDev :=
  { ready := true, sectorSize := 512, totalSectors := 100, data := bootSector (bootBpb fsInfo) }

/-- A directory is made in a volume with an FSInfo sector. -/
theorem bootDev_remount_iff : ∃ b v₀ root v dir' r, mount (bootDev 1) = .ok (some (b, v₀, root)) ∧
    create noTime v₀ smallRoot [0x61#8] ftDir = .ok (v, dir', r) ∧ v.dirty = true ∧
    (Remounted b v ↔ RemountFits b v) := by
  obtain ⟨b, v₀, root, v, dir', r, hm, hc, hd, hi⟩ : ∃ b v₀ root v dir' r, mount (bootDev 1) =
    .ok (some (b, v₀, root)) ∧
      create noTime v₀ smallRoot [0x61#8] ftDir = .ok (v, dir', r) ∧ v.dirty = true ∧
      v.fsinfoSector + 1 ≤ v.dev.totalSectors := ⟨_, _, _, _, _, _, rfl, rfl, rfl, by decide⟩
  exact ⟨b, v₀, root, v, dir', r, hm, hc, hd, remount_iff rfl hm (.single (.create _ _ _ _ _ hc)) hd hi⟩

/-- Without an FSInfo sector the sync overwrites the boot sector. -/
theorem noFsinfo_not_mounted : ∃ b v₀ root v dir' r, mount (bootDev 0) = .ok (some (b, v₀, root)) ∧
    create noTime v₀ smallRoot [0x61#8] ftDir = .ok (v, dir', r) ∧ v.dirty = true ∧
    v.fatStart + v.fatSize32 ≤ v.dev.totalSectors ∧ v.fsinfoSector + 1 ≤ v.dev.totalSectors ∧
    mount v.sync.dev = .ok none ∧ ¬ Remounted b v := by
  refine ⟨_, _, _, _, _, _, rfl, rfl, rfl, by decide, by decide, rfl, ?_⟩
  rintro ⟨v', root, hm, -⟩
  cases hm

end Fat32

end OS64
