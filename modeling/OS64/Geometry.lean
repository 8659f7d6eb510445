import OS64.FatRemount
import OS64.ExfatMount
import OS64.ExfatVolume
/-!
# Geometry — where the clusters of a newly formatted volume lie

The cluster numbers that the drivers give out come from the size of the FAT, which is rounded up to whole sectors and
counts the sectors before the data area as well; so the last clusters lie behind the end of the device.  It is different
only for devices so large that a 32-bit word of the computation overflows (`geometry_iff`).
-/
namespace OS64

open List Nat

namespace BlockDev

variable {dev d : BlockDev} {lba n o : Nat} {src : Mem}

theorem sectorSize_write (dev : BlockDev) (lba n : Nat) (src : Mem) :
    (dev.write lba n src).sectorSize = dev.sectorSize := by
  unfold write
  split <;> rfl

theorem data_write_apart (h512 : dev.sectorSize = 512) (h : o < 512 * lba ∨ 512 * (lba + n) ≤ o) :
    (dev.write lba n src).data o = dev.data o := by
  unfold write
  split
  · rw [h512]
    exact blit_apart _ _ (by omega)
  · rfl

theorem data_write_at (h512 : dev.sectorSize = 512) (hready : dev.ready = true)
    (hin : u64 (lba + n) ≤ dev.totalSectors) (ho : o < 512 * n) : (dev.write lba n src).data (512 * lba + o) =
      src o := by
  unfold write
  rw [if_pos ⟨hready, hin⟩, h512]
  exact blit_at _ _ ho

theorem tryWrite_eq (h : dev.tryWrite lba n src = some d) :
    d = dev.write lba n src ∧ dev.ready = true ∧ u64 (lba + n) ≤ dev.totalSectors := by
  unfold tryWrite at h
  split at h
  · rename_i hc
    exact ⟨(Option.some.inj h).symm, hc⟩
  · cases h

end BlockDev

open BlockDev

namespace Fat32

variable {b : Bpb} {d dev : BlockDev}

/-- Every free cluster lies behind the FATs and wholly on the device. -/
def GeometryRight (b : Bpb) (v : Fat32) : Prop :=
  ∀ c, v.geom.Index c → v.fatCache c = free →
    b.reservedSectors + b.numFats * b.fatSize32 ≤ v.sectorOf c ∧
      v.sectorOf c + v.sectorsPerCluster ≤ v.dev.totalSectors

/-- The last cluster lies on the device, and its sectors have 32-bit numbers. -/
def GeometryFits (totalSectors : Nat) : Prop :=
  let fatSize := fatSizeFor 512 totalSectors
  let spc := sectorsPerClusterFor totalSectors
  32 + 2 * fatSize + (128 * fatSize - 3) * spc < 4294967296 ∧
    32 + 2 * fatSize + (128 * fatSize - 3) * spc + spc ≤ totalSectors

theorem sectorsPerClusterFor_le (totalSectors : Nat) :
    0 < sectorsPerClusterFor totalSectors ∧ sectorsPerClusterFor totalSectors ≤ 16 := by
  unfold sectorsPerClusterFor
  repeat' split
  all_goals omega

theorem sub32_sector_lt (n : Nat) : sub32 n 1 / 512 < 8388608 := by
  have : sub32 n 1 < 4294967296 := sub32_lt n 1
  omega

theorem fatSizeFor_lt (totalSectors : Nat) : fatSizeFor 512 totalSectors < 8388608 := sub32_sector_lt _

theorem ofSector_bootSector (h1 : b.bytesPerSector < 65536) (h2 : b.sectorsPerCluster < 256)
    (h3 : b.reservedSectors < 65536) (h4 : b.numFats < 256) (h5 : b.totalSectors32 < 4294967296)
    (h6 : b.fatSize32 < 4294967296) (h7 : b.rootCluster < 4294967296) (h8 : b.fsInfo < 65536) :
    Bpb.ofSector (bootSector b) = b := by
  unfold Bpb.ofSector bootSector
  simp [load_store, load_store_apart, mod_eq_of_lt, h1, h2, h3, h4, h5, h6, h7, h8]

theorem ofSector_bpbFor (totalSectors : Nat) :
    Bpb.ofSector (bootSector (bpbFor 512 totalSectors)) = bpbFor 512 totalSectors := by
  have hspc := sectorsPerClusterFor_le totalSectors
  have hfat := fatSizeFor_lt totalSectors
  exact ofSector_bootSector (by show 512 < _; omega) (by show sectorsPerClusterFor totalSectors < _; omega)
    (by show 32 < _; omega) (by show 2 < _; omega) (u32_lt _) (by show fatSizeFor 512 totalSectors < _; omega)
    (by show 2 < _; omega) (by show 1 < _; omega)

theorem newFat_free {c : Nat} (h : 3 ≤ c) : load newFat (4 * c) 4 = 0 := by
  unfold newFat
  simp (disch := omega) only [load_store_apart]
  rfl

section
variable {fs : Nat} (h512 : dev.sectorSize = 512) (hfs : fatSizeFor 512 dev.totalSectors = fs)
  (hf : format dev = some d)
include h512 hfs hf

/-- **A formatted device**: its boot sector and its first FAT. -/
theorem format_data : d.sectorSize = 512 ∧ d.totalSectors = dev.totalSectors ∧
    (∀ o, o < 512 → d.data o = bootSector (bpbFor 512 dev.totalSectors) o) ∧
    (32 + fs ≤ dev.totalSectors → ∀ o, o < 512 * fs → d.data (512 * 32 + o) = newFat o) := by
  have hfat : fs < 8388608 := hfs ▸ fatSizeFor_lt _
  unfold format at hf
  split at hf
  · cases hf
  rename_i hready
  simp only [h512] at hf
  split at hf
  · cases hf
  rename_i hsome
  have hsize : (bpbFor 512 dev.totalSectors).fatSize32 = fs := hfs
  simp only [hsize] at hf hsome
  rw [u32_of_lt (show 32 + 2 * fs < 4294967296 by omega), u32_of_lt (show 32 + fs < 4294967296 by omega)] at hf
  obtain rfl := Option.some.inj hf
  have hone : u64 (0 + 1) ≤ dev.totalSectors := by
    rw [u64_of_lt (by decide)]
    omega
  have hr : dev.ready = true := by simpa using hready
  refine ⟨by simp only [sectorSize_write, h512], by simp only [totalSectors_write], fun o ho => ?_, fun hin o ho => ?_⟩
  · iterate 6 rw [data_write_apart (by simp only [sectorSize_write, h512]) (by omega)]
    have := @data_write_at dev 0 1 o (bootSector (bpbFor 512 dev.totalSectors)) h512 hr hone (by omega)
    rwa [Nat.zero_add] at this
  · iterate 2 rw [data_write_apart (by simp only [sectorSize_write, h512]) (by omega)]
    refine data_write_at (by simp only [sectorSize_write, h512]) (by simp only [ready_write, hr]) ?_ ho
    rw [u64_of_lt (by omega)]
    simpa only [totalSectors_write] using hin

variable {root : Inode} {v : Fat32} (hm : mount d = .ok (some (b, v, root)))
include hm

/-- **A formatted and mounted volume.** -/
theorem format_mount : b = bpbFor 512 dev.totalSectors ∧ 0 < fs ∧ v.dev.totalSectors = dev.totalSectors ∧
    v.fatEntries = 128 * fs ∧ v.dataStart = 32 + 2 * fs ∧
    v.sectorsPerCluster = sectorsPerClusterFor dev.totalSectors ∧ ∀ c, 3 ≤ c → c < v.fatEntries →
      v.fatCache c = free := by
  obtain ⟨hsec, htot, hboot, hfat⟩ := format_data h512 hfs hf
  obtain ⟨-, hb, hacc, hsize, hin, hv⟩ := mount_cases hsec hm
  obtain rfl : b = bpbFor 512 dev.totalSectors := by rw [hb, Bpb.ofSector_congr hboot, ofSector_bpbFor]
  have hsize' : (bpbFor 512 dev.totalSectors).fatSize32 = fs := hfs
  have hent : v.fatEntries = 128 * fs := by
    rw [hv]
    show u32 ((bpbFor 512 dev.totalSectors).fatSize32 * 512) / 4 = _
    rw [u32_of_lt (by omega)]
    omega
  have hdata : v.dataStart = 32 + 2 * fs := by
    rw [hv]
    show u32 (32 + u32 (2 * (bpbFor 512 dev.totalSectors).fatSize32)) = _
    rw [hsize', u32_of_lt (n := 2 * _) (by omega), u32_of_lt (by omega)]
  refine ⟨rfl, Nat.pos_of_ne_zero (hsize' ▸ hacc.2.2), by rwa [hv], hent, hdata, by rw [hv]; rfl,
    fun c h3 hc => ?_⟩
  rw [htot, hsize'] at hin
  have hload : load (fun o => d.data (512 * 32 + o)) (4 * c) 4 = load newFat (4 * c) 4 :=
    load_congr (fun i hi => hfat hin _ (by omega))
  rw [hv]
  show load (fun o => d.data (512 * 32 + o)) (4 * c) 4 = free
  rw [hload, newFat_free h3]
  rfl

/-- **When the clusters of a new FAT32 volume lie where they should.** -/
theorem fat32_geometry : GeometryRight b v ↔ GeometryFits dev.totalSectors := by
  obtain ⟨rfl, hpos, htot, hent, hdata, hspc, hfree⟩ := format_mount h512 hfs hf hm
  have hlt : fs < 8388608 := hfs ▸ fatSizeFor_lt _
  obtain ⟨hs1, hs16⟩ := sectorsPerClusterFor_le dev.totalSectors
  have hres : (bpbFor 512 dev.totalSectors).reservedSectors + (bpbFor 512 dev.totalSectors).numFats *
      (bpbFor 512 dev.totalSectors).fatSize32 = 32 + 2 * fs := by rw [← hfs]; rfl
  unfold GeometryRight GeometryFits sectorOf
  rw [hres, hspc, htot, hdata, hfs]
  generalize sectorsPerClusterFor dev.totalSectors = spc at *
  have hidx : ∀ {c}, v.geom.Index c ↔ 2 ≤ c ∧ c < 128 * fs := by
    intro c
    rw [← hent]
    rfl
  constructor
  · intro h
    by_cases hwrap : 32 + 2 * fs + (128 * fs - 3) * spc < 4294967296
    · have hlast := h (128 * fs - 1) (hidx.2 (by omega)) (hfree _ (by omega) (by omega))
      have he : 128 * fs - 1 - 2 = 128 * fs - 3 := by omega
      rw [he, u32_of_lt hwrap] at hlast
      exact ⟨hwrap, hlast.2⟩
    -- the first cluster whose sector number overflows starts in the first sectors
    exfalso
    have hk := div_add_mod' (4294967296 - (32 + 2 * fs) + (spc - 1)) spc
    have hkm := mod_lt (4294967296 - (32 + 2 * fs) + (spc - 1)) hs1
    generalize (4294967296 - (32 + 2 * fs) + (spc - 1)) / spc = k at hk
    have hk1 : 1 ≤ k := by
      rcases Nat.eq_zero_or_pos k with rfl | hk0
      · omega
      · exact hk0
    have hkle : k ≤ 128 * fs - 3 := by
      refine not_lt.1 (fun hc => ?_)
      have := mul_le_mul_right spc (show 128 * fs - 3 + 1 ≤ k by omega)
      rw [succ_mul] at this
      omega
    have hc := (h (k + 2) (hidx.2 (by omega)) (hfree _ (by omega) (by omega))).1
    rw [Nat.add_sub_cancel] at hc
    unfold u32 at hc
    omega
  · rintro ⟨hwrap, hin⟩ c hc -
    rw [hidx] at hc
    have hle : (c - 2) * spc ≤ (128 * fs - 3) * spc := mul_le_mul_right _ (by omega)
    rw [u32_of_lt (by omega)]
    omega

end

end Fat32

namespace Exfat

variable {b : Vbr} {d dev : BlockDev}

/-- Every free cluster lies behind the FAT and wholly on the device. -/
def GeometryRight (v : Exfat) : Prop :=
  ∀ c, v.geom.Index c → v.fatCache c = fatFree →
    v.fatOffset + v.fatLength ≤ v.sectorOf c ∧ v.sectorOf c + v.sectorsPerCluster ≤ v.dev.totalSectors

/-- The sectors of the clusters, as far as they are counted in 32 bits, fit the device. -/
def GeometryFits (totalSectors : Nat) : Prop :=
  let fatSectors := fatSectorsFor 512 totalSectors
  24 + fatSectors + min ((128 * fatSectors - 2) * 2 ^ clusterShiftFor totalSectors) 4294967296 ≤ totalSectors

theorem clusterShiftFor_le (totalSectors : Nat) : clusterShiftFor totalSectors ≤ 6 := by
  unfold clusterShiftFor
  repeat' split
  all_goals omega

theorem fatSectorsFor_lt (totalSectors : Nat) : fatSectorsFor 512 totalSectors < 8388608 := Fat32.sub32_sector_lt _

theorem newFat_free {c : Nat} (h : 3 ≤ c) : load newFat (4 * c) 4 = 0 := by
  unfold newFat
  simp (disch := omega) only [load_store_apart]
  rfl

theorem fsName_vbrSector (h : b.fsName = volumeName) : (Vbr.ofSector (vbrSector b)).fsName = volumeName := by
  have hbyte : (List.range 8).map (fun k => vbrSector b (3 + k)) =
      (List.range 8).map (fun k => volumeName.getD k 0#8) := by
    refine map_congr_left (fun k hk => ?_)
    have hlt := mem_range.1 hk
    unfold vbrSector
    simp (disch := omega) only [store_apart]
    rw [blit_at _ _ hlt, h]
  have hlit : (List.range 8).map (fun k => volumeName.getD k 0#8) = volumeName := by decide
  exact hbyte.trans hlit

theorem ofSector_vbrSector (h0 : b.fsName = volumeName) (h1 : b.fatOffset < 4294967296)
    (h2 : b.fatLength < 4294967296) (h3 : b.clusterHeapOffset < 4294967296) (h4 : b.rootDirCluster < 4294967296)
    (h5 : b.bytesPerSectorShift < 256) (h6 : b.sectorsPerClusterShift < 256) : Vbr.ofSector (vbrSector b) = b := by
  have hname := fsName_vbrSector h0
  cases b
  subst h0
  unfold Vbr.ofSector at hname ⊢
  unfold vbrSector at hname ⊢
  simp only at hname ⊢
  rw [hname]
  simp [load_store, load_store_apart, h1, h2, h3, h4, h5, h6]

theorem ofSector_vbrFor (totalSectors : Nat) :
    Vbr.ofSector (vbrSector (vbrFor 512 totalSectors)) = vbrFor 512 totalSectors := by
  have hshift := clusterShiftFor_le totalSectors
  have hfat := fatSectorsFor_lt totalSectors
  exact ofSector_vbrSector rfl (by show 24 < _; omega) (by show fatSectorsFor 512 totalSectors < _; omega) (u32_lt _)
    (by show 2 < _; omega) (by show 9 < _; omega) (by show clusterShiftFor totalSectors < _; omega)

theorem ofSector_congr {m m' : Mem} (h : ∀ o, o < 512 → m' o = m o) : Vbr.ofSector m' = Vbr.ofSector m := by
  have hload : ∀ {a k : Nat}, a + k ≤ 512 → load m' a k = load m a k :=
    fun hk => load_congr (fun i hi => h _ (by omega))
  have hname : (List.range 8).map (fun k => m' (3 + k)) = (List.range 8).map (fun k => m (3 + k)) :=
    map_congr_left (fun k hk => h _ (by have := mem_range.1 hk; omega))
  unfold Vbr.ofSector
  rw [hname]
  simp only [hload (show 80 + 4 ≤ 512 by omega), hload (show 84 + 4 ≤ 512 by omega), hload (show 88 + 4 ≤ 512 by omega),
    hload (show 96 + 4 ≤ 512 by omega), hload (show 108 + 1 ≤ 512 by omega), hload (show 109 + 1 ≤ 512 by omega)]

structure FatWritten (dev d : BlockDev) (n : Nat) : Prop where
  sector : d.sectorSize = 512
  total : d.totalSectors = dev.totalSectors
  ready : d.ready = dev.ready
  inside : 0 < n → 24 + n ≤ dev.totalSectors
  before : ∀ o, o < 512 * 24 → d.data o = dev.data o
  fat : ∀ o, o < 512 * n → d.data (512 * 24 + o) = newFat o

theorem writeNewFat_spec (h512 : dev.sectorSize = 512) : ∀ {n : Nat} {d : BlockDev}, n < 8388608 →
    writeNewFat dev n = some d → FatWritten dev d n
  | 0, d, _, h => by
    obtain rfl : dev = d := Option.some.inj h
    exact ⟨h512, rfl, rfl, fun hc => absurd hc (lt_irrefl 0), fun _ _ => rfl, fun o ho => absurd ho (by omega)⟩
  | n + 1, d, hn, h => by
    obtain ⟨u, hu, hd⟩ := Option.bind_eq_some_iff.1 h
    obtain ⟨hsec, htot, hready, -, hbefore, hfat⟩ := writeNewFat_spec h512 (by omega) hu
    obtain ⟨rfl, hr, hin⟩ := tryWrite_eq hd
    refine ⟨by rw [sectorSize_write, hsec], by rw [Fat32.totalSectors_write, htot], by rw [Fat32.ready_write, hready],
      fun _ => ?_, fun o ho => ?_, fun o ho => ?_⟩
    · rw [htot, u64_of_lt (by omega)] at hin
      omega
    · rw [data_write_apart hsec (by omega), hbefore o ho]
    · by_cases hlast : o < 512 * n
      · rw [data_write_apart hsec (by omega), hfat o hlast]
      have := @data_write_at u (24 + n) 1 (o - 512 * n) (fun o => newFat (n * dev.sectorSize + o)) hsec hr hin
        (by omega)
      have h1 : 512 * (24 + n) + (o - 512 * n) = 512 * 24 + o := by omega
      have h2 : n * dev.sectorSize + (o - 512 * n) = o := by rw [h512]; omega
      simp only [h1, h2] at this
      exact this

section
variable {fs : Nat} (h512 : dev.sectorSize = 512) (hfs : fatSectorsFor 512 dev.totalSectors = fs)
  (hf : format dev = some d)
include hfs

theorem heapOffset_vbrFor : (vbrFor 512 dev.totalSectors).clusterHeapOffset = 24 + fs := by
  have hlt := fatSectorsFor_lt dev.totalSectors
  rw [← hfs]
  exact u32_of_lt (by omega)

include h512 hf

/-- **A formatted device**: its boot sector and its FAT. -/
theorem format_data : d.sectorSize = 512 ∧ d.totalSectors = dev.totalSectors ∧ d.ready = true ∧
    24 + fs ≤ dev.totalSectors ∧ (∀ o, o < 512 → d.data o = vbrSector (vbrFor 512 dev.totalSectors) o) ∧
    ∀ o, o < 512 * fs → d.data (512 * 24 + o) = newFat o := by
  have hlt : fs < 8388608 := hfs ▸ fatSectorsFor_lt _
  have hlen : (vbrFor 512 dev.totalSectors).fatLength = fs := hfs
  unfold format at hf
  split at hf
  · cases hf
  simp only [h512, hlen, heapOffset_vbrFor hfs] at hf
  obtain ⟨d₁, h₁, hf⟩ := Option.bind_eq_some_iff.1 hf
  obtain ⟨rfl, hr, hin⟩ := tryWrite_eq h₁
  split at hf
  · cases hf
  rename_i hpos
  obtain ⟨d₂, h₂, hf⟩ := Option.bind_eq_some_iff.1 hf
  obtain ⟨hsec, htot, hready, hinside, hbefore, hfat⟩ := writeNewFat_spec (by rw [sectorSize_write, h512]) hlt h₂
  obtain ⟨rfl, -, -⟩ := tryWrite_eq hf
  rw [Fat32.totalSectors_write] at htot hinside
  rw [Fat32.ready_write] at hready
  refine ⟨by rw [sectorSize_write, hsec], by rw [Fat32.totalSectors_write, htot], by rw [Fat32.ready_write, hready, hr],
    hinside (Nat.pos_of_ne_zero hpos), fun o ho => ?_, fun o ho => ?_⟩
  · have := @data_write_at dev 0 1 o (vbrSector (vbrFor 512 dev.totalSectors)) h512 hr hin (by omega)
    rw [Nat.zero_add] at this
    rw [data_write_apart hsec (by omega), hbefore o (by omega), this]
  · rw [data_write_apart hsec (by omega), hfat o ho]

end

theorem readFat_eq (h512 : d.sectorSize = 512) (hready : d.ready = true)
    (hb : b.bytesPerSector = 512) (hoff : b.fatOffset = 24) : ∀ {n : Nat}, n < 8388608 → 24 + n ≤ d.totalSectors →
    ∀ o, o < 512 * n → readFat d b n o = d.data (512 * 24 + o)
  | 0, _, _, o, ho => absurd ho (by omega)
  | n + 1, hn, hin, o, ho => by
    have hread : d.read (u32 (b.fatOffset + n)) 1 = some (fun x => d.data (512 * (24 + n) + x)) := by
      unfold BlockDev.read
      rw [hoff, u32_of_lt (by omega), u64_of_lt (by omega), if_pos ⟨hready, by omega⟩, h512]
    unfold readFat
    rw [hread, hb, h512]
    simp only
    by_cases hlast : o < 512 * n
    · rw [blit_apart _ _ (by omega), readFat_eq h512 hready hb hoff (by omega) (by omega) o hlast]
    · have h1 : o = n * 512 + (o - n * 512) := by omega
      rw [h1, blit_at _ _ (by omega)]
      congr 1
      omega

theorem pow_split {k : Nat} (hk : k ≤ 6) : 4294967296 = 2 ^ (32 - k) * 2 ^ k := by
  rw [← Nat.pow_add, Nat.sub_add_cancel (by omega)]

theorem u32_mul_pow_add_le (n : Nat) {k : Nat} (hk : k ≤ 6) : u32 (n * 2 ^ k) + 2 ^ k ≤ 4294967296 := by
  have h32 := pow_split hk
  have hmod : u32 (n * 2 ^ k) = n % 2 ^ (32 - k) * 2 ^ k := by
    unfold u32
    rw [h32, Nat.mul_mod_mul_right]
  have hlt := Nat.mod_lt n (Nat.two_pow_pos (32 - k))
  rw [hmod, h32, ← Nat.succ_mul]
  exact Nat.mul_le_mul_right _ hlt

section
variable {fs k : Nat} (h512 : dev.sectorSize = 512) (hfs : fatSectorsFor 512 dev.totalSectors = fs)
  (hk : clusterShiftFor dev.totalSectors = k) (hf : format dev = some d) {v : Exfat} {root : ExInode}
  (hm : mount d = .ok (some (v, root)))
include h512 hfs hk hf hm

/-- **A formatted device, mounted.** -/
theorem format_mount : 0 < fs ∧ v.dev.totalSectors = dev.totalSectors ∧ v.fatEntries = 128 * fs ∧ v.fatOffset = 24 ∧
    v.fatLength = fs ∧ v.clusterHeapStart / v.bytesPerSector = 24 + fs ∧ v.sectorsPerCluster = 2 ^ k ∧
    ∀ c, 3 ≤ c → c < v.fatEntries → v.fatCache c = fatFree := by
  obtain ⟨hsec, htot, hready, hin, hboot, hfat⟩ := format_data h512 hfs hf
  have hlt : fs < 8388608 := hfs ▸ fatSectorsFor_lt _
  have hshift : k ≤ 6 := hk ▸ clusterShiftFor_le _
  have hb : (vbrFor 512 dev.totalSectors).bytesPerSector = 512 := rfl
  have hlen : (vbrFor 512 dev.totalSectors).fatLength = fs := hfs
  have hread : d.read 0 1 = some d.data := by
    unfold BlockDev.read
    rw [u64_of_lt (by omega), if_pos ⟨hready, by omega⟩, mul_zero]
    simp only [zero_add]
  unfold mount at hm
  rw [hread] at hm
  simp only [ofSector_congr hboot, ofSector_vbrFor, hb, hlen] at hm
  split at hm
  · cases hm
  split at hm
  · cases hm
  rename_i hpos
  split at hm
  · cases hm
  have hv : ofVbr d (vbrFor 512 dev.totalSectors) = v := by
    injection hm with hm
    injection hm with hm
    exact (Prod.mk.inj hm).1
  have hent : v.fatEntries = 128 * fs := by
    rw [← hv]
    show u32 ((vbrFor 512 dev.totalSectors).fatLength * 512) / 4 = _
    rw [hlen, u32_of_lt (by omega)]
    omega
  refine ⟨Nat.pos_of_ne_zero (fun hc => hpos (by rw [hc]; rfl)), by rwa [← hv], hent, by rw [← hv]; rfl,
    by rwa [← hv], ?_, ?_, fun c h3 hc => ?_⟩
  · rw [← hv]
    show u64 ((vbrFor 512 dev.totalSectors).clusterHeapOffset * 512) / 512 = _
    rw [heapOffset_vbrFor hfs, u64_of_lt (by omega), Nat.mul_div_cancel _ (by omega)]
  · rw [← hv, ← hk]
    exact u32_of_lt ((Nat.pow_le_pow_right (by omega) (hk ▸ hshift)).trans_lt (by omega))
  · rw [← hv]
    show load (readFat d (vbrFor 512 dev.totalSectors) (vbrFor 512 dev.totalSectors).fatLength) (4 * c) 4 = fatFree
    rw [hlen, load_congr (fun i hi => ?_), newFat_free h3]
    · rfl
    · rw [readFat_eq hsec hready hb rfl hlt (by omega) _ (by omega), hfat _ (by omega)]

/-- **When the clusters of a new exFAT volume lie where they should.** -/
theorem exfat_geometry : GeometryRight v ↔ GeometryFits dev.totalSectors := by
  obtain ⟨hpos, htot, hent, hoff, hlen, hheap, hspc, hfree⟩ := format_mount h512 hfs hk hf hm
  have hlt : fs < 8388608 := hfs ▸ fatSectorsFor_lt _
  have hshift : k ≤ 6 := hk ▸ clusterShiftFor_le _
  have hroom := fun n => u32_mul_pow_add_le n hshift
  have hs1 := Nat.two_pow_pos k
  have h32 := pow_split hshift
  have hsector : ∀ c, v.sectorOf c = 24 + fs + u32 ((c - 2) * 2 ^ k) := by
    intro c
    unfold sectorOf
    rw [hheap, hspc]
    have := u32_lt ((c - 2) * 2 ^ k)
    exact u64_of_lt (by omega)
  have htop2 : 2 ^ 1 ≤ 2 ^ (32 - k) := Nat.pow_le_pow_right (by omega) (by omega)
  unfold GeometryRight GeometryFits
  simp only [hsector, hoff, hlen, hspc, htot, hfs, hk]
  generalize 2 ^ k = spc at *
  generalize 2 ^ (32 - k) = top at *
  have hidx : ∀ {c}, v.geom.Index c ↔ 2 ≤ c ∧ c < 128 * fs := by
    intro c
    rw [← hent]
    rfl
  constructor
  · intro h
    by_cases hwrap : (128 * fs - 2) * spc ≤ 4294967296
    · have hlast := (h (128 * fs - 1) (hidx.2 (by omega)) (hfree _ (by omega) (by omega))).2
      have hsum : (128 * fs - 1 - 2) * spc + spc = (128 * fs - 2) * spc := by
        rw [← Nat.succ_mul]
        congr 1
        omega
      rw [u32_of_lt (by omega)] at hlast
      omega
    · -- the last cluster before the product overflows
      have htop : top < 128 * fs - 2 := by
        refine not_le.1 (fun hc => hwrap ?_)
        rw [h32]
        exact Nat.mul_le_mul_right spc hc
      have hlast := (h (top + 1) (hidx.2 (by omega)) (hfree _ (by omega) (by omega))).2
      have hsum : (top + 1 - 2) * spc + spc = top * spc := by
        rw [← Nat.succ_mul]
        congr 1
        omega
      rw [u32_of_lt (by omega)] at hlast
      omega
  · rintro hin c hc -
    rw [hidx] at hc
    have hle : (c - 2) * spc + spc ≤ (128 * fs - 2) * spc := by
      rw [← Nat.succ_mul]
      exact Nat.mul_le_mul_right spc (by omega)
    have hmod : u32 ((c - 2) * spc) ≤ (c - 2) * spc := Nat.mod_le _ _
    have := hroom (c - 2)
    refine ⟨by omega, ?_⟩
    omega

end

end Exfat

/-- **Format geometry**: on a device with sectors of 512 bytes that `fat32_format` or `exfat_format` prepared and the
driver mounted, every free cluster maps to sectors behind the FATs and on the device exactly if the clusters that the
whole FAT can number fit the device. -/
theorem geometry_iff {dev : BlockDev} (h512 : dev.sectorSize = 512) :
    (∀ d b v root, Fat32.format dev = some d → Fat32.mount d = .ok (some (b, v, root)) →
      (Fat32.GeometryRight b v ↔ Fat32.GeometryFits dev.totalSectors)) ∧
    ∀ d v root, Exfat.format dev = some d → Exfat.mount d = .ok (some (v, root)) →
      (Exfat.GeometryRight v ↔ Exfat.GeometryFits dev.totalSectors) :=
  ⟨fun _ _ _ _ hf hm => Fat32.fat32_geometry h512 rfl hf hm, fun _ _ _ hf hm => Exfat.exfat_geometry h512 rfl rfl hf hm⟩

def hundredSectors : BlockDev := { ready := true, sectorSize := 512, totalSectors := 100, data := blank }

theorem hundredSectors_geometry_iff :
    (∃ d b v root, Fat32.format hundredSectors = some d ∧ Fat32.mount d = .ok (some (b, v, root)) ∧
      (Fat32.GeometryRight b v ↔ Fat32.GeometryFits 100)) ∧
    ∃ d v root, Exfat.format hundredSectors = some d ∧ Exfat.mount d = .ok (some (v, root)) ∧
      (Exfat.GeometryRight v ↔ Exfat.GeometryFits 100) :=
  ⟨⟨_, _, _, _, rfl, rfl, (@geometry_iff hundredSectors rfl).1 _ _ _ _ rfl rfl⟩,
    ⟨_, _, _, rfl, rfl, (@geometry_iff hundredSectors rfl).2 _ _ _ rfl rfl⟩⟩

/-- On that device cluster 127 is free: FAT32 puts it in sector 159, exFAT in sector 150. -/
theorem hundredSectors_beyond :
    (∃ d b v root, Fat32.format hundredSectors = some d ∧ Fat32.mount d = .ok (some (b, v, root)) ∧
      v.geom.Index 127 ∧ v.fatCache 127 = Fat32.free ∧ v.sectorOf 127 = 159 ∧ ¬ Fat32.GeometryRight b v) ∧
    ∃ d v root, Exfat.format hundredSectors = some d ∧ Exfat.mount d = .ok (some (v, root)) ∧
      v.geom.Index 127 ∧ v.fatCache 127 = Exfat.fatFree ∧ v.sectorOf 127 = 150 ∧ ¬ Exfat.GeometryRight v := by
  constructor
  · refine ⟨_, _, _, _, rfl, rfl, by decide, by decide, by decide, fun h => ?_⟩
    exact absurd (h 127 (by decide) (by decide)).2 (by decide)
  · refine ⟨_, _, _, rfl, rfl, by decide, by decide, by decide, fun h => ?_⟩
    exact absurd (h 127 (by decide) (by decide)).2 (by decide)

end OS64
