import OS64.Bytes
import OS64.ListHead
import OS64.Loop
import OS64.Word
/-!
# Ioapic — finding the I/O APICs in the MADT (`drivers/apic/ioapic.c`, `kernel/driver.c`)

The driver walks the table's entries and puts a node for each I/O APIC on a list.  The nodes come from
`driver_get_private`, which gives a driver one block and returns the same block again: the second I/O APIC's node is the
first's, and adding it to the list it is on makes it its own successor (`discovers_iff`).
-/
namespace OS64

open List Nat ListMem

/-- `ioapic_device_t` without its list node. -/
structure IoapicDevice where
  id : Nat
  address : Nat
  gsiBase : Nat
  version : Nat
  maxRedir : Nat
  virtAddr : Nat
  enabled : Bool

structure IrqRedirect where
  vector : Nat
  masked : Bool
  levelTriggered : Bool
  activeLow : Bool
  destApicId : Nat

/-- What the driver finds: the MADT (at `madt`, 0 for none), the addresses of `g_ioapic_list` and of the pool of
`driver_get_private`, and the version register of the I/O APIC at an address. -/
structure IoapicEnv where
  table : Mem
  madt : Nat
  head : Nat
  pool : Nat
  versionAt : Nat → Nat

/-- The globals of the driver: the list nodes and devices in memory, by address (a device starts with its node),
`drv->priv` and `g_driver_private_offset`. -/
structure IoapicState where
  lists : ListMem
  devices : Nat → IoapicDevice
  count : Nat
  redirects : Nat → IrqRedirect
  priv : Nat
  privateOffset : Nat

def ioapicDeviceSize : Nat := 56

def madtSize : Nat := 44

def madtTypeIoApic : Nat := 1

namespace IoapicEnv

def entryType (env : IoapicEnv) (entry : Nat) : Nat := load env.table entry 1

def entryLength (env : IoapicEnv) (entry : Nat) : Nat := load env.table (entry + 1) 1

def ioApicId (env : IoapicEnv) (entry : Nat) : Nat := load env.table (entry + 2) 1

def ioApicAddress (env : IoapicEnv) (entry : Nat) : Nat := load env.table (entry + 4) 4

def globalSystemInterruptBase (env : IoapicEnv) (entry : Nat) : Nat := load env.table (entry + 8) 4

def tableEnd (env : IoapicEnv) : Nat := env.madt + load env.table (env.madt + 4) 4

end IoapicEnv

namespace IoapicState

/-- `driver_get_private` for the I/O APIC driver; the result `0` is `NULL`. -/
def driverGetPrivate (env : IoapicEnv) (s : IoapicState) (size : Nat) : IoapicState × Nat :=
  if s.priv ≠ 0 then (s, s.priv)
  else if u32 (s.privateOffset + size) > 8192 then (s, 0)
  else
    let priv := env.pool + s.privateOffset
    let s := { s with priv := priv, privateOffset := u32 (s.privateOffset + size) }
    ({ s with
      lists := (s.lists.setNext priv 0).setPrev priv 0
      devices := fun a => if a = priv then ⟨0, 0, 0, 0, 0, 0, false⟩ else s.devices a }, priv)

/-- The body of the loop for an I/O APIC entry; `false` is the return of `-1`. -/
def addIoapic (env : IoapicEnv) (s : IoapicState) (entry : Nat) : IoapicState × Bool :=
  let (s, ioapic) := driverGetPrivate env s ioapicDeviceSize
  if ioapic = 0 then (s, false)
  else
    let version := env.versionAt (env.ioApicAddress entry)
    let device : IoapicDevice :=
      { id := env.ioApicId entry
        address := env.ioApicAddress entry
        gsiBase := env.globalSystemInterruptBase entry
        virtAddr := env.ioApicAddress entry
        enabled := false
        version := version % 256
        maxRedir := version / 65536 % 256 + 1 }
    let s := { s with devices := fun a => if a = ioapic then device else s.devices a }
    ({ s with lists := s.lists.listAddTail env.head ioapic, count := u32 (s.count + 1) }, true)

def scan (env : IoapicEnv) : Nat → Nat → IoapicState → Res (IoapicState × Bool)
  | 0, _, _ => .hang
  | turns + 1, entry, s =>
    if entry < env.tableEnd then
      if env.entryType entry = madtTypeIoApic then
        match addIoapic env s entry with
        | (s, false) => .ok (s, false)
        | (s, true) => scan env turns (entry + env.entryLength entry) s
      else scan env turns (entry + env.entryLength entry) s
    else .ok (s, true)

def maskDevice (redirects : Nat → IrqRedirect) (d : IoapicDevice) : Nat → IrqRedirect :=
  (List.range d.maxRedir).foldl (fun r i =>
    let gsi := u32 (d.gsiBase + i)
    if gsi < 256 then fun g => if g = gsi then { r g with masked := true } else r g else r) redirects

def ioapicMaskAll (env : IoapicEnv) (turns : Nat) (s : IoapicState) : Res IoapicState :=
  match s.lists.listForEach env.head turns with
  | none => .hang
  | some nodes => .ok { s with redirects := nodes.foldl (fun r node => maskDevice r (s.devices node)) s.redirects }

def ioapicInitDriver (env : IoapicEnv) (turns : Nat) (s : IoapicState) : Res (IoapicState × Int) := do
  let s := { s with
    lists := s.lists.listInit env.head
    count := 0
    redirects := fun _ => ⟨0, true, false, false, 0⟩ }
  if env.madt = 0 then return (s, -1)
  let (s, ok) ← scan env turns (env.madt + madtSize) s
  if ok = false then return (s, -1)
  if s.count = 0 then return (s, -1)
  let s ← ioapicMaskAll env turns s
  return (s, 0)

end IoapicState

/-! ## The table -/

/-- **A well-formed table**: from `entry` to its end there are the entries `os`, each at least two bytes long. -/
def MadtEntries (env : IoapicEnv) : Nat → List Nat → Prop
  | entry, [] => entry = env.tableEnd
  | entry, o :: os => entry = o ∧ 2 ≤ env.entryLength o ∧ o + env.entryLength o ≤ env.tableEnd ∧
      MadtEntries env (o + env.entryLength o) os

def ioapics (env : IoapicEnv) (os : List Nat) : List Nat :=
  os.filter (fun o => decide (env.entryType o = madtTypeIoApic))

theorem MadtEntries.length {env : IoapicEnv} : ∀ {os : List Nat} {entry : Nat}, MadtEntries env entry os →
    entry + 2 * os.length ≤ env.tableEnd
  | [], _, h => le_of_eq h
  | o :: os, _, ⟨rfl, hlen, _, hrest⟩ => by
    have := hrest.length
    rw [length_cons]
    omega

theorem MadtEntries.few {env : IoapicEnv} {entries : List Nat} (h : MadtEntries env (env.madt + madtSize) entries) :
    entries.length < 2 ^ 32 := by
  have hlen := h.length
  have hload : load env.table (env.madt + 4) 4 < 2 ^ 32 := load_lt env.table 4 (env.madt + 4)
  unfold IoapicEnv.tableEnd at hlen
  omega

namespace IoapicState

variable {env : IoapicEnv} {s : IoapicState}

def addAll (env : IoapicEnv) : IoapicState → List Nat → IoapicState × Bool
  | s, [] => (s, true)
  | s, o :: os =>
    match addIoapic env s o with
    | (s, false) => (s, false)
    | (s, true) => addAll env s os

/-- **The walk reaches each I/O APIC entry once and in order.** -/
theorem scan_eq : ∀ {os : List Nat} {turns entry : Nat} {s : IoapicState}, MadtEntries env entry os →
    os.length < turns → scan env turns entry s = .ok (addAll env s (ioapics env os))
  | [], turns + 1, entry, s, h, _ => by
    rw [scan, if_neg (not_lt.2 (le_of_eq h.symm))]
    rfl
  | o :: os, turns + 1, _, s, ⟨rfl, hlen, hin, hrest⟩, hturns => by
    have hturns' := lt_of_succ_lt_succ hturns
    unfold ioapics
    rw [scan, if_pos (by omega), filter_cons]
    by_cases htype : env.entryType o = madtTypeIoApic
    · rw [if_pos htype, if_pos (decide_eq_true htype), addAll]
      rcases addIoapic env s o with ⟨s', _ | _⟩
      · rfl
      · exact scan_eq hrest hturns'
    · rw [if_neg htype, if_neg (fun hc => htype (of_decide_eq_true hc))]
      exact scan_eq hrest hturns'

/-! ## One I/O APIC after the other -/

/-- `driver_get_private` has nothing to give: the driver has no block yet, and the pool is used up. -/
def Refused (s : IoapicState) : Prop := s.priv = 0 ∧ u32 (s.privateOffset + ioapicDeviceSize) > 8192

def nodeOf (env : IoapicEnv) (s : IoapicState) : Nat := if s.priv ≠ 0 then s.priv else env.pool + s.privateOffset

/-- The list's head is no part of the pool, nor of the driver's block, and the pool is in use to its end at most. -/
structure Layout (env : IoapicEnv) (s : IoapicState) : Prop where
  priv : s.priv ≠ env.head
  pool : ∀ off, off < 8192 → env.pool + off ≠ env.head
  nonNull : env.pool ≠ 0
  offset : s.privateOffset ≤ 8192

def facts (env : IoapicEnv) (entry : Nat) : Nat × Nat × Nat :=
  (env.ioApicId entry, env.ioApicAddress entry, env.globalSystemInterruptBase entry)

def recorded (s : IoapicState) (node : Nat) : Nat × Nat × Nat :=
  ((s.devices node).id, (s.devices node).address, (s.devices node).gsiBase)

theorem addIoapic_refused (h : Refused s) (o : Nat) : addIoapic env s o = (s, false) := by
  unfold addIoapic driverGetPrivate
  rw [if_neg (fun hne => hne h.1), if_pos h.2]
  rfl

/-- **An entry added**: its node is the driver's block, whatever was on the list before. -/
structure Added (env : IoapicEnv) (s s' : IoapicState) (o : Nat) : Prop where
  priv : s'.priv = nodeOf env s
  count : s'.count = u32 (s.count + 1)
  recorded : s'.recorded (nodeOf env s) = facts env o
  lists : ∃ m : ListMem, s'.lists = m.listAddTail env.head (nodeOf env s) ∧
    (s.priv ≠ 0 → m = s.lists) ∧ ∀ a, a ≠ nodeOf env s → m.next a = s.lists.next a ∧ m.prev a = s.lists.prev a

theorem addIoapic_has (env : IoapicEnv) (h : s.priv ≠ 0) (o : Nat) :
    ∃ s', addIoapic env s o = (s', true) ∧ Added env s s' o := by
  have hnode : nodeOf env s = s.priv := if_pos h
  unfold addIoapic driverGetPrivate
  rw [if_pos h]
  simp only
  rw [if_neg h]
  exact ⟨_, rfl, hnode.symm, rfl, by rw [hnode]; simp only [recorded, if_pos, facts], s.lists, by rw [hnode],
    fun _ => rfl, fun _ _ => ⟨rfl, rfl⟩⟩

theorem addIoapic_added (hl : Layout env s) (h : ¬ Refused s) (o : Nat) :
    ∃ s', addIoapic env s o = (s', true) ∧ Added env s s' o := by
  by_cases hp : s.priv ≠ 0
  · exact addIoapic_has env hp o
  have hroom : ¬ u32 (s.privateOffset + ioapicDeviceSize) > 8192 := fun hgt => h ⟨not_not.1 hp, hgt⟩
  have hnode : nodeOf env s = env.pool + s.privateOffset := if_neg hp
  have hnull : env.pool + s.privateOffset ≠ 0 := by
    have := hl.nonNull
    omega
  unfold addIoapic driverGetPrivate
  rw [if_neg hp, if_neg hroom]
  simp only
  rw [if_neg hnull]
  refine ⟨_, rfl, hnode.symm, rfl, by rw [hnode]; simp only [recorded, if_pos, facts],
    (s.lists.setNext (env.pool + s.privateOffset) 0).setPrev (env.pool + s.privateOffset) 0, by rw [hnode],
    fun hp' => absurd hp' hp, fun a ha => ?_⟩
  rw [hnode] at ha
  exact ⟨if_neg ha, if_neg ha⟩

theorem nodeOf_ne (hl : Layout env s) (h : ¬ Refused s) : nodeOf env s ≠ 0 ∧ nodeOf env s ≠ env.head := by
  unfold nodeOf
  by_cases hp : s.priv ≠ 0
  · rw [if_pos hp]
    exact ⟨hp, hl.priv⟩
  have hroom : u32 (s.privateOffset + ioapicDeviceSize) ≤ 8192 := not_lt.1 (fun hgt => h ⟨not_not.1 hp, hgt⟩)
  have hoff := hl.offset
  have hnull := hl.nonNull
  rw [if_neg hp]
  refine ⟨by omega, hl.pool _ ?_⟩
  unfold ioapicDeviceSize u32 at hroom
  omega

/-- The list after a second I/O APIC: the node is its own successor. -/
structure Looped (env : IoapicEnv) (s : IoapicState) : Prop where
  nonNull : s.priv ≠ 0
  apart : s.priv ≠ env.head
  first : s.lists.next env.head = s.priv
  again : s.lists.next s.priv = s.priv
  last : s.lists.prev env.head = s.priv

/-- **Another I/O APIC when the driver's block is the last node**: it is then its own successor. -/
theorem Added.looped {s' : IoapicState} {o : Nat} (h : Added env s s' o) (hpriv : s.priv ≠ 0)
    (hne : s.priv ≠ env.head) (hfirst : s.lists.next env.head = s.priv) (hlast : s.lists.prev env.head = s.priv) :
    Looped env s' := by
  have hnode : nodeOf env s = s.priv := if_pos hpriv
  have hp := h.priv
  obtain ⟨m, hm, hsame, -⟩ := h.lists
  rw [hnode] at hp hm
  rw [hsame hpriv] at hm
  obtain ⟨h1, h2, h3⟩ := listAddTail_again hne.symm hlast
  refine ⟨hp ▸ hpriv, hp ▸ hne, ?_, ?_, ?_⟩
  · rw [hm, h2, hfirst, hp]
  · rw [hm, hp, h1]
  · rw [hm, h3, hp]

theorem Looped.addAll : ∀ (os : List Nat) {s : IoapicState}, Looped env s →
    ∃ s', addAll env s os = (s', true) ∧ Looped env s' ∧ s'.count % 2 ^ 32 = (s.count + os.length) % 2 ^ 32
  | [], s, h => ⟨s, rfl, h, rfl⟩
  | o :: os, s, h => by
    obtain ⟨t, ht, hadded⟩ := addIoapic_has env h.nonNull o
    obtain ⟨s', hs', hloop, hcount⟩ := Looped.addAll os (hadded.looped h.nonNull h.apart h.first h.last)
    refine ⟨s', ?_, hloop, ?_⟩
    · rwa [IoapicState.addAll, ht]
    · rw [hcount, hadded.count, length_cons]
      unfold u32
      omega

theorem Looped.walk (h : Looped env s) (turns : Nat) : s.lists.listForEach env.head turns = none :=
  forEach_stuck (S := fun a => a = s.priv) (fun a ha => by rw [ha]; exact h.again) h.apart.symm h.first turns

/-! ## Discovery -/

/-- **The list is right**: circular, with a node for each I/O APIC entry in table order that records what the entry
says; they are counted, and a walk of them ends. -/
def Discovered (env : IoapicEnv) (s : IoapicState) (entries : List Nat) : Prop :=
  ∃ nodes, s.lists.IsList env.head nodes ∧ nodes.map s.recorded = (ioapics env entries).map (facts env) ∧
    s.count = (ioapics env entries).length ∧ ∃ turns, s.lists.listForEach env.head turns = some nodes

/-- `ioapic_init_driver` ends, and if it returns 0, the list is right. -/
def Discovers (env : IoapicEnv) (s : IoapicState) (entries : List Nat) : Prop :=
  ∃ n, ∀ turns, n ≤ turns → ∃ s' r, ioapicInitDriver env turns s = .ok (s', r) ∧ (r = 0 → Discovered env s' entries)

def cleared (env : IoapicEnv) (s : IoapicState) : IoapicState :=
  { s with lists := s.lists.listInit env.head, count := 0, redirects := fun _ => ⟨0, true, false, false, 0⟩ }

section Outcomes

variable {env : IoapicEnv} {s : IoapicState} {entries : List Nat}

variable {o : Nat} {os : List Nat}

theorem init_eq (hm : env.madt ≠ 0) (he : MadtEntries env (env.madt + madtSize) entries) {turns : Nat}
    (ht : entries.length < turns) : ioapicInitDriver env turns s =
      (let (t, ok) := addAll env (s.cleared env) (ioapics env entries)
      if ok = false then .ok (t, -1)
      else if t.count = 0 then .ok (t, -1)
      else (ioapicMaskAll env turns t).bind (fun t => .ok (t, 0))) := by
  unfold ioapicInitDriver
  simp only [if_neg hm]
  rw [scan_eq he ht]
  rfl

theorem addAll_refused (h : Refused s) (o : Nat) (os : List Nat) : addAll env s (o :: os) = (s, false) := by
  rw [addAll, addIoapic_refused h]

theorem cleared_isList (env : IoapicEnv) (s : IoapicState) : (s.cleared env).lists.IsList env.head [] :=
    listInit_isList _ _

theorem Added.single {s' : IoapicState} (hl : Layout env s) (hr : ¬ Refused s) (h : Added env (s.cleared env) s' o) :
    s'.lists.IsList env.head [nodeOf env s] ∧ s'.priv = nodeOf env s ∧ s'.recorded (nodeOf env s) = facts env o ∧
      s'.count = 1 := by
  obtain ⟨hnull, hne⟩ := nodeOf_ne hl hr
  obtain ⟨m, hm, -, hsame⟩ := h.lists
  refine ⟨?_, h.priv, h.recorded, h.count⟩
  have hnil : m.IsList env.head [] := by
    obtain ⟨hn, hp⟩ := hsame env.head hne.symm
    obtain ⟨hn', hp'⟩ := isList_nil.1 (cleared_isList env s)
    exact isList_nil.2 ⟨hn.trans hn', hp.trans hp'⟩
  rw [hm]
  exact hnil.addTail (fun hc => hne (mem_singleton.1 hc))

theorem addAll_two (hl : Layout env s) (hr : ¬ Refused s) (o₁ o₂ : Nat) (os : List Nat) :
    ∃ s', addAll env (s.cleared env) (o₁ :: o₂ :: os) = (s', true) ∧ Looped env s' ∧
      s'.count % 2 ^ 32 = (os.length + 2) % 2 ^ 32 := by
  obtain ⟨hnull, hne⟩ := nodeOf_ne hl hr
  obtain ⟨s₁, h₁, hadd₁⟩ := @addIoapic_added env (s.cleared env) ⟨hl.priv, hl.pool, hl.nonNull, hl.offset⟩ hr o₁
  obtain ⟨hlist, hpriv, -, hcount⟩ := hadd₁.single hl hr
  obtain ⟨⟨hfirst, -⟩, -, hlast⟩ := hlist.chained
  have hp₁ : s₁.priv ≠ 0 := hpriv ▸ hnull
  obtain ⟨s₂, h₂, hadd₂⟩ := addIoapic_has env hp₁ o₂
  have hloop := hadd₂.looped hp₁ (hpriv ▸ hne) (hfirst.trans hpriv.symm) (hlast.trans hpriv.symm)
  obtain ⟨s₃, h₃, hloop₃, hcount₃⟩ := hloop.addAll os
  refine ⟨s₃, ?_, hloop₃, ?_⟩
  · rw [addAll, h₁]
    show addAll env s₁ (o₂ :: os) = _
    rwa [addAll, h₂]
  · rw [hcount₃, hadd₂.count]
    unfold u32
    omega

section
variable (hm : env.madt ≠ 0) (he : MadtEntries env (env.madt + madtSize) entries)
include hm he

theorem discovers_of_none (h : ioapics env entries = []) : Discovers env s entries := by
  refine ⟨entries.length + 1, fun turns ht => ⟨s.cleared env, -1, ?_, fun hr => absurd hr (by decide)⟩⟩
  rw [init_eq hm he ht, h]
  rfl

theorem discovers_of_refused (hr : Refused s) (h : ioapics env entries = o :: os) : Discovers env s entries := by
  refine ⟨entries.length + 1, fun turns ht => ⟨s.cleared env, -1, ?_, fun hr => absurd hr (by decide)⟩⟩
  rw [init_eq hm he ht, h, addAll_refused (s := s.cleared env) hr]
  rfl

theorem discovers_of_one (hl : Layout env s)
    (hr : ¬ Refused s) (h : ioapics env entries = [o]) : Discovers env s entries := by
  obtain ⟨t, ht, hadd⟩ := @addIoapic_added env (s.cleared env) ⟨hl.priv, hl.pool, hl.nonNull, hl.offset⟩ hr o
  obtain ⟨hlist, -, hrec, hcount⟩ := hadd.single hl hr
  refine ⟨entries.length + 2, fun turns hturns => ?_⟩
  have hwalk : ∀ {k}, 2 ≤ k → t.lists.listForEach env.head k = some [nodeOf env s] := fun hk => hlist.forEach hk
  have hinit : ioapicInitDriver env turns s =
      .ok ({ t with redirects := maskDevice t.redirects (t.devices (nodeOf env s)) }, 0) := by
    rw [init_eq hm he (by omega), h, addAll, ht]
    show (if t.count = 0 then _ else (ioapicMaskAll env turns t).bind _) = _
    rw [if_neg (by rw [hcount]; decide), ioapicMaskAll, hwalk (by omega)]
    rfl
  refine ⟨_, 0, hinit, fun _ => ⟨[nodeOf env s], hlist, ?_, ?_, 2, hwalk (le_refl 2)⟩⟩
  · rw [h]
    exact congrArg (fun x => [x]) hrec
  · rwa [h]

/-- **With two I/O APICs, the masking at the end goes round for ever.** -/
theorem hangs_of_two (hl : Layout env s)
    (hr : ¬ Refused s) {o₁ o₂ : Nat} (h : ioapics env entries = o₁ :: o₂ :: os) {turns : Nat}
    (hturns : entries.length < turns) : ioapicInitDriver env turns s = .hang := by
  obtain ⟨t, ht, hloop, hcount⟩ := addAll_two hl hr o₁ o₂ os
  have hfew : os.length + 2 < 2 ^ 32 := by
    have hle := length_filter_le (fun o => decide (env.entryType o = madtTypeIoApic)) entries
    change (ioapics env entries).length ≤ _ at hle
    rw [h] at hle
    exact hle.trans_lt he.few
  have hpos : t.count ≠ 0 := by omega
  rw [init_eq hm he hturns, h, ht]
  show (if t.count = 0 then _ else (ioapicMaskAll env turns t).bind _) = _
  rw [if_neg hpos, ioapicMaskAll, hloop.walk]
  rfl

theorem not_discovers_of_two (hl : Layout env s)
    (hr : ¬ Refused s) {o₁ o₂ : Nat} (h : ioapics env entries = o₁ :: o₂ :: os) : ¬ Discovers env s entries := by
  rintro ⟨n, hall⟩
  obtain ⟨s', r, hok, -⟩ := hall (n + entries.length + 1) (by omega)
  rw [hangs_of_two hm he hl hr h (by omega)] at hok
  cases hok

end

end Outcomes

/-- **When discovery works**: when the table has at most one I/O APIC, or the pool is used up and the driver gives
up. -/
theorem discovers_iff (env : IoapicEnv) (s : IoapicState) (entries : List Nat) (hm : env.madt ≠ 0)
    (he : MadtEntries env (env.madt + madtSize) entries) (hl : Layout env s) :
    Discovers env s entries ↔ (ioapics env entries).length ≤ 1 ∨ Refused s := by
  by_cases hr : Refused s
  · refine iff_of_true ?_ (.inr hr)
    cases h : ioapics env entries with
    | nil => exact discovers_of_none hm he h
    | cons o os => exact discovers_of_refused hm he hr h
  rcases h : ioapics env entries with _ | ⟨o₁, _ | ⟨o₂, os⟩⟩
  · exact iff_of_true (discovers_of_none hm he h) (.inl (zero_le 1))
  · exact iff_of_true (discovers_of_one hm he hl hr h) (.inl (le_refl 1))
  · refine iff_of_false (not_discovers_of_two hm he hl hr h) (fun hc => ?_)
    rcases hc with hc | hc
    · rw [length_cons, length_cons] at hc
      omega
    · exact hr hc

/-- A table of `n` I/O APIC entries of 12 bytes at address 4096, the rest of it 0. -/
def uniformTable (n : Nat) : IoapicEnv where
  table := fun a =>
    if a = 4100 then BitVec.ofNat 8 (44 + 12 * n)
    else if a < 4140 then 0#8
    else if (a - 4140) % 12 = 0 then 1#8
    else if (a - 4140) % 12 = 1 then 12#8
    else if (a - 4140) % 12 = 2 then BitVec.ofNat 8 ((a - 4140) / 12)
    else 0#8
  madt := 4096
  head := 8192
  pool := 16384
  versionAt := fun _ => 0x170011

def idle : IoapicState :=
  { lists := ⟨fun _ => 0, fun _ => 0⟩, devices := fun _ => ⟨0, 0, 0, 0, 0, 0, false⟩, count := 0,
    redirects := fun _ => ⟨0, false, false, false, 0⟩, priv := 0, privateOffset := 0 }

theorem idle_layout (n : Nat) : Layout (uniformTable n) idle where
  priv := by show 0 ≠ 8192; decide
  pool := fun off _ => by show 16384 + off ≠ 8192; omega
  nonNull := by show 16384 ≠ 0; decide
  offset := by decide

theorem one_discovers_iff : Discovers (uniformTable 1) idle [4140] ↔
    (ioapics (uniformTable 1) [4140]).length ≤ 1 ∨ Refused idle :=
  discovers_iff (uniformTable 1) idle [4140] (by decide) ⟨rfl, by decide, by decide, rfl⟩ (idle_layout 1)

/-- **With two I/O APICs in the table, `ioapic_init_driver` does not end.** -/
theorem two_not_discovered : MadtEntries (uniformTable 2) 4140 [4140, 4152] ∧ Layout (uniformTable 2) idle ∧
    ∀ turns, 2 < turns → ioapicInitDriver (uniformTable 2) turns idle = .hang := by
  have he : MadtEntries (uniformTable 2) 4140 [4140, 4152] :=
    ⟨rfl, by decide, by decide, rfl, by decide, by decide, rfl⟩
  have hr : ¬ Refused idle := fun h => absurd h.2 (by decide)
  exact ⟨he, idle_layout 2, fun turns hturns => hangs_of_two (by decide) he (idle_layout 2) hr rfl hturns⟩

end IoapicState
end OS64
