import OS64.ListHead
import OS64.Word
/-!
# UsbCore — the lists of USB devices (`drivers/usb/usb_core.c`)

A device goes on two lists, that of all devices and that of its controller, with one node for both.  The second
insertion takes the node out of the first list's circle: from the first device on, the list of all devices does not
close (`listsRight_iff`).  Nor is a controller's list ever initialised by the drivers that register one.

A device is named by the address of its `node`, a controller by that of its `devices` head.
-/
namespace OS64

open List ListMem

/-- `usb_device_t`, as far as the core reads it. -/
structure UsbDevice where
  vendorId : Nat
  productId : Nat
  address : Nat
  hcd : Nat
  driver : Option Nat

structure UsbHcd where
  deviceCount : Nat
  nextAddress : Nat

/-- `usb_driver_t`: what it matches (0 for anything), and what its `probe` answers (`none` without one). -/
structure UsbDriver where
  vendorId : Nat
  productId : Nat
  probe : Option (UsbDevice → Int)

/-- The core: the list heads and nodes in memory, devices and controllers by address, the drivers registered, and the
address of `g_usb_devices`. -/
structure UsbCore where
  lists : ListMem
  devices : Nat → UsbDevice
  hcds : Nat → UsbHcd
  drivers : List UsbDriver
  allDevices : Nat

namespace UsbCore

def binds (dev : UsbDevice) (drv : UsbDriver) : Bool :=
  if drv.vendorId ≠ 0 ∧ drv.vendorId ≠ dev.vendorId then false
  else if drv.productId ≠ 0 ∧ drv.productId ≠ dev.productId then false
  else match drv.probe with
    | some probe => probe dev == 0
    | none => false

def usbDeviceAdd (s : UsbCore) (hcd dev : Nat) : UsbCore :=
  let address := ((s.hcds hcd).nextAddress + 1) % 256
  let nextAddress := if address > 127 then 1 else address
  let lists := s.lists.listAddTail s.allDevices dev
  let lists := lists.listAddTail hcd dev
  let h : UsbHcd := ⟨u32 ((s.hcds hcd).deviceCount + 1), nextAddress⟩
  let d := { s.devices dev with address := address }
  let d := match s.drivers.findIdx? (binds d) with
    | some i => { d with driver := some i }
    | none => d
  { s with
    lists := lists
    devices := fun a => if a = dev then d else s.devices a
    hcds := fun a => if a = hcd then h else s.hcds a }

/-- `usb_device_remove`, after the driver's `disconnect`. -/
def usbDeviceRemove (s : UsbCore) (dev : Nat) : UsbCore :=
  let lists := s.lists.listDel dev
  let hcd := (s.devices dev).hcd
  if hcd ≠ 0 then
    let lists := lists.listDel dev
    let h : UsbHcd := { s.hcds hcd with deviceCount := sub32 (s.hcds hcd).deviceCount 1 }
    { s with lists := lists, hcds := fun a => if a = hcd then h else s.hcds a }
  else { s with lists := lists }

end UsbCore

inductive UsbOp where
  | add (hcd dev : Nat)
  | remove (dev : Nat)

/-- The core and the devices added and not removed, each with its controller. -/
structure UsbRun where
  core : UsbCore
  live : List (Nat × Nat)

namespace UsbRun

def step (r : UsbRun) : UsbOp → UsbRun
  | .add hcd dev => ⟨r.core.usbDeviceAdd hcd dev, r.live ++ [(dev, hcd)]⟩
  | .remove dev => ⟨r.core.usbDeviceRemove dev, r.live.filter (fun p => p.1 ≠ dev)⟩

def run (r : UsbRun) (ops : List UsbOp) : UsbRun := ops.foldl step r

/-- A call as the core is meant to be used: a device not yet there is added to a registered controller that keeps fewer
than 127 of them, in memory of its own; a device that is there is removed. -/
def Allowed (hcds : List Nat) (r : UsbRun) : UsbOp → Prop
  | .add hcd dev => hcd ∈ hcds ∧ dev ∉ r.live.map Prod.fst ∧ (r.live.filter (fun p => p.2 = hcd)).length + 1 < 127 ∧
      dev ≠ 0 ∧ dev ≠ r.core.allDevices ∧ dev ∉ hcds
  | .remove dev => dev ∈ r.live.map Prod.fst

def AllowedRun (hcds : List Nat) (r : UsbRun) : List UsbOp → Prop
  | [] => True
  | op :: ops => Allowed hcds r op ∧ AllowedRun hcds (r.step op) ops

/-- **The lists are right**: both are circular lists of exactly the devices there are, the controllers' counts are the
lengths of their lists, and the addresses of a controller's devices are distinct and in 1..127. -/
structure ListsRight (hcds : List Nat) (r : UsbRun) : Prop where
  all : ∃ l, r.core.lists.IsList r.core.allDevices l ∧ ∀ d, d ∈ l ↔ d ∈ r.live.map Prod.fst
  each : ∀ h ∈ hcds, ∃ l, r.core.lists.IsList h l ∧ (∀ d, d ∈ l ↔ (d, h) ∈ r.live) ∧
    (r.core.hcds h).deviceCount = l.length
  range : ∀ p ∈ r.live, 1 ≤ (r.core.devices p.1).address ∧ (r.core.devices p.1).address ≤ 127
  distinct : ∀ p ∈ r.live, ∀ q ∈ r.live, p.2 = q.2 → (r.core.devices p.1).address = (r.core.devices q.1).address → p = q

/-- After `usb_init` and the registration of the controllers `hcds`, before the first device.  A controller's own list
may have been initialised, or left 0. -/
structure Fresh (hcds : List Nat) (r : UsbRun) : Prop where
  live : r.live = []
  all : r.core.lists.IsList r.core.allDevices []
  each : ∀ h ∈ hcds, (r.core.lists.IsList h [] ∨ r.core.lists.next h = 0 ∧ r.core.lists.prev h = 0) ∧
    (r.core.hcds h).deviceCount = 0 ∧ (r.core.hcds h).nextAddress = 0 ∧ h ≠ 0 ∧ h ≠ r.core.allDevices

/-- **The first device** leaves the list of all devices open: its node leads to the controller's list, and back from
there. -/
theorem add_open {hcds : List Nat} {r : UsbRun} (hf : Fresh hcds r) {hcd dev : Nat} (ha : Allowed hcds r (.add hcd dev))
    (hinit : r.core.lists.IsList hcd []) (l : List Nat) :
    ¬ (r.step (.add hcd dev)).core.lists.IsList r.core.allDevices l := by
  obtain ⟨hmem, -, -, -, hda, hdh⟩ := ha
  obtain ⟨-, -, -, -, hha⟩ := hf.each hcd hmem
  obtain ⟨hg, hg'⟩ := isList_nil.1 hf.all
  obtain ⟨hc, hc'⟩ := isList_nil.1 hinit
  have hdc : hcd ≠ dev := fun heq => hdh (heq ▸ hmem)
  have hprev : (r.core.lists.listAddTail r.core.allDevices dev).prev hcd = hcd := by
    rw [listAddTail_prev, if_neg hha, if_neg hdc, hc']
  have hnext := listAddTail_next (r.core.lists.listAddTail r.core.allDevices dev) hcd dev
  have hnext₁ := listAddTail_next r.core.lists r.core.allDevices dev
  have hstep : (r.step (.add hcd dev)).core.lists =
      (r.core.lists.listAddTail r.core.allDevices dev).listAddTail hcd dev := rfl
  rw [hstep]
  refine not_isList_of_stuck (S := fun a => a = dev ∨ a = hcd) ?_ ?_ ?_ l
  · rintro a (rfl | rfl)
    · right
      rw [hnext _ hdc, hprev, if_neg hdc.symm, if_pos rfl]
    · left
      rw [hnext _ hdc, hprev, if_pos rfl]
  · rintro (h | h)
    · exact hda h.symm
    · exact hha h.symm
  · left
    rw [hnext _ hdc, hprev, if_neg hha.symm, if_neg hda.symm, hnext₁ _ hda.symm, if_pos hg'.symm]

theorem fresh_right {hcds : List Nat} {r : UsbRun} (hf : Fresh hcds r)
    (hinit : ∀ h ∈ hcds, r.core.lists.IsList h []) : ListsRight hcds r := by
  refine ⟨⟨[], hf.all, fun d => ?_⟩, fun h hh => ⟨[], hinit h hh, fun d => ?_, (hf.each h hh).2.1⟩, fun p hp => ?_,
    fun p hp => ?_⟩
  · rw [hf.live]
    exact Iff.rfl
  · rw [hf.live]
    exact iff_of_false (not_mem_nil) (not_mem_nil)
  · rw [hf.live] at hp
    cases hp
  · rw [hf.live] at hp
    cases hp

theorem ListsRight.initialised {hcds : List Nat} {r : UsbRun} (hf : Fresh hcds r) (h : ListsRight hcds r) {hcd : Nat}
    (hh : hcd ∈ hcds) : r.core.lists.IsList hcd [] := by
  obtain ⟨l, hl, hmem, -⟩ := h.each hcd hh
  rw [hf.live] at hmem
  cases l with
  | nil => exact hl
  | cons d l => exact absurd ((hmem d).1 (.head _)) not_mem_nil

/-- **When the lists are right in every state of a run**: when the controllers' lists were initialised and no device is
ever added. -/
theorem listsRight_iff (hcds : List Nat) (r : UsbRun) (ops : List UsbOp) (hf : Fresh hcds r)
    (hr : AllowedRun hcds r ops) : (∀ pre post, ops = pre ++ post → ListsRight hcds (r.run pre)) ↔
      (∀ h ∈ hcds, r.core.lists.IsList h []) ∧ ∀ hcd dev, UsbOp.add hcd dev ∉ ops := by
  constructor
  · intro hall
    have hstart : ListsRight hcds r := hall [] ops rfl
    have hinit : ∀ h ∈ hcds, r.core.lists.IsList h [] := fun h hh => hstart.initialised hf hh
    refine ⟨hinit, fun hcd dev hadd => ?_⟩
    cases ops with
    | nil => cases hadd
    | cons op ops =>
      have hop := hr.1
      cases op with
      | add h d =>
        obtain ⟨l, hl, -⟩ := (hall [.add h d] ops rfl).all
        exact add_open hf hop (hinit h hop.1) l hl
      | remove d =>
        have hmem : d ∈ r.live.map Prod.fst := hop
        rw [hf.live] at hmem
        cases hmem
  · rintro ⟨hinit, hno⟩ pre post rfl
    cases pre with
    | nil => exact fresh_right hf hinit
    | cons op pre =>
      have hop := hr.1
      cases op with
      | add h d => exact absurd mem_cons_self (hno h d)
      | remove d =>
        have hmem : d ∈ r.live.map Prod.fst := hop
        rw [hf.live] at hmem
        cases hmem

def oneController (initialised : Bool) : UsbRun where
  core :=
    { lists := ListMem.listInit ⟨fun a => if a = 2000 ∧ initialised then 2000 else 0,
        fun a => if a = 2000 ∧ initialised then 2000 else 0⟩ 1000
      devices := fun _ => ⟨0x46D, 0xC077, 0, 2000, none⟩
      hcds := fun _ => ⟨0, 0⟩
      drivers := []
      allDevices := 1000 }
  live := []

theorem oneController_fresh (b : Bool) : Fresh [2000] (oneController b) := by
  refine ⟨rfl, listInit_isList _ 1000, fun h hh => ?_⟩
  obtain rfl := mem_singleton.1 hh
  refine ⟨?_, rfl, rfl, by decide, by show 2000 ≠ 1000; decide⟩
  cases b with
  | true => exact .inl (isList_nil.2 ⟨rfl, rfl⟩)
  | false => exact .inr ⟨rfl, rfl⟩

theorem oneController_allowed (b : Bool) : AllowedRun [2000] (oneController b) [.add 2000 3000] :=
  ⟨⟨mem_singleton_self _, not_mem_nil, by show 0 + 1 < 127; decide, by decide, by show 3000 ≠ 1000; decide,
    by decide⟩, trivial⟩

theorem oneController_listsRight_iff :
    (∀ pre post, [UsbOp.add 2000 3000] = pre ++ post → ListsRight [2000] ((oneController true).run pre)) ↔
      (∀ h ∈ [2000], (oneController true).core.lists.IsList h []) ∧ ∀ hcd dev,
        UsbOp.add hcd dev ∉ [UsbOp.add 2000 3000] :=
  listsRight_iff [2000] (oneController true) [.add 2000 3000] (oneController_fresh true) (oneController_allowed true)

/-- **After the first device, a walk of all devices does not end**, the controller's list having been initialised; and
without a device the controller's list, as the drivers leave it, is not one. -/
theorem firstDevice_wrong : AllowedRun [2000] (oneController true) [.add 2000 3000] ∧
    ¬ ListsRight [2000] ((oneController true).run [.add 2000 3000]) ∧ ¬ ListsRight [2000] (oneController false) := by
  refine ⟨oneController_allowed true, fun h => ?_, fun h => ?_⟩
  · obtain ⟨l, hl, -⟩ := h.all
    exact add_open (oneController_fresh true) (oneController_allowed true).1 (isList_nil.2 ⟨rfl, rfl⟩) l hl
  · have hnil := h.initialised (oneController_fresh false) (mem_singleton_self 2000)
    exact absurd (isList_nil.1 hnil).1 (by decide)

/-! ## Addresses -/

def addsTo (hcd : Nat) : List UsbOp → Nat
  | [] => 0
  | .add h _ :: ops => (if h = hcd then 1 else 0) + addsTo hcd ops
  | .remove _ :: ops => addsTo hcd ops

theorem nextAddress_run {hcd : Nat} : ∀ (ops : List UsbOp) (r : UsbRun) (n : Nat),
    (r.core.hcds hcd).nextAddress = (if n = 0 then 0 else (n - 1) % 127 + 1) →
    ((r.run ops).core.hcds hcd).nextAddress = if n + addsTo hcd ops = 0 then 0 else (n + addsTo hcd ops - 1) % 127 + 1
  | [], _, _, h => h
  | .remove dev :: ops, r, n, h => by
    refine nextAddress_run ops (r.step (.remove dev)) n (Eq.trans ?_ h)
    unfold step UsbCore.usbDeviceRemove
    grind
  | .add k dev :: ops, r, n, h => by
    have hrest := nextAddress_run ops (r.step (.add k dev)) (n + if k = hcd then 1 else 0) (by
      unfold step UsbCore.usbDeviceAdd
      dsimp only
      by_cases heq : hcd = k
      · rw [if_pos heq, if_pos heq.symm, if_neg n.succ_ne_zero, ← heq, h]
        by_cases hn : n = 0
        · rw [hn]
          rfl
        · rw [if_neg hn]
          dsimp only
          split <;> omega
      · rwa [if_neg heq, if_neg (Ne.symm heq)])
    rwa [Nat.add_assoc] at hrest

/-- **The addresses a controller gives**, whatever is added and removed: the 128th device, and each 127th from there on,
gets the address 128. -/
theorem address_of_add (r : UsbRun) (hcd dev : Nat) (ops : List UsbOp) (h : (r.core.hcds hcd).nextAddress = 0) :
    ((r.run (ops ++ [.add hcd dev])).core.devices dev).address =
      if addsTo hcd ops = 0 then 1 else (addsTo hcd ops - 1) % 127 + 2 := by
  have hadd (s : UsbCore) : ((s.usbDeviceAdd hcd dev).devices dev).address = ((s.hcds hcd).nextAddress + 1) % 256 := by
    unfold UsbCore.usbDeviceAdd
    grind
  rw [run, foldl_append]
  refine (hadd (r.run ops).core).trans ?_
  rw [nextAddress_run ops r 0 h, Nat.zero_add]
  split <;> omega

theorem replugged_address : (((oneController true).run [.add 2000 3000, .remove 3000, .add 2000 3000]).core.devices
    3000).address = 2 := address_of_add (oneController true) 2000 3000 [.add 2000 3000, .remove 3000] rfl

end UsbRun
end OS64
