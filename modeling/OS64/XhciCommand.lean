import OS64.XhciRing
/-!
# XhciCommand — commands and their completion (`drivers/usb/xhci.c`)

`xhci_send_command` waits until `cmd_ring.dequeue` differs from where it enqueued.  Nothing in the driver moves that
field: `xhci_process_events` only prints a completion.  So the wait ends at once or with a timeout, whatever the
controller does.

The controller and the timer are a `XhciWorld` that answers every access at the moment it is made.  `none` is a call
that does not return within `fuel`.  What `xhci_scan_ports` does beside commands (page allocation, the USB core) enters
as the world's answer whether it succeeds.
-/
namespace OS64

open Option

structure XhciWorld where
  ticks : Nat → Nat
  event : Nat → Nat → Trb
  portsc : Nat → Nat → Nat
  /-- The input context that is allocated, if the pages are there. -/
  inputCtx : Nat → Option Nat
  /-- The two bytes behind an `xhci_address_device_cmd_t` on the stack, copied into the ring with it. -/
  behind : Nat → BitVec 16

structure XhciCtx where
  cmdRing : XhciRing
  evtRing : XhciRing
  maxPorts : Nat
  connected : Nat → Bool
  /-- The accesses made so far. -/
  time : Nat
  /-- The events taken from the event ring so far. -/
  taken : List Trb

def trbTypeEnableSlot : Nat := 9
def trbTypeAddressDevice : Nat := 11
def trbTypeCmdCompleteEvent : Nat := 33
def trbTypePortStatusEvent : Nat := 34

/-- `xhci_enable_slot_cmd_t`: its type stands in the bits 9 to 14. -/
def enableSlotCmd : Trb := ⟨0, 0, 0, trbTypeEnableSlot * 512⟩

/-- `xhci_address_device_cmd_t`: packed, its type stands in the bits 25 to 30 of the third word, its slot in the bits 7
to 14 of the fourth. -/
def addressDeviceCmd (ptr slotId : Nat) (behind : BitVec 16) : Trb :=
  ⟨u32 ptr, ptr / 4294967296, trbTypeAddressDevice * 33554432, slotId * 128 + behind.toNat * 65536⟩

def XhciCtx.tick (c : XhciCtx) : XhciCtx := { c with time := c.time + 1 }

def XhciRing.dequeueNext (ring : XhciRing) : XhciRing :=
  let ring := { ring with dequeue := u32 (ring.dequeue + 1) }
  if ring.dequeue ≥ ring.size then { ring with dequeue := 0, cycleState := ring.cycleState ^^^ 1 } else ring

mutual

def xhciProcessEvents (w : XhciWorld) : Nat → XhciCtx → Option XhciCtx
  | 0, _ => none
  | fuel + 1, c =>
    let trb := w.event c.time c.evtRing.dequeue
    let c := c.tick
    if trb.cycle ≠ c.evtRing.cycleState then some c
    else
      let c := { c with taken := c.taken ++ [trb] }
      (if trb.trbType = trbTypePortStatusEvent then xhciScanPorts w fuel 0 c else some c).bind fun c =>
        xhciProcessEvents w fuel { c with evtRing := c.evtRing.dequeueNext }

/-- `xhci_scan_ports`, from port `i` on. -/
def xhciScanPorts (w : XhciWorld) : Nat → Nat → XhciCtx → Option XhciCtx
  | 0, _, _ => none
  | fuel + 1, i, c =>
    if i ≥ c.maxPorts then some c
    else
      let connected := w.portsc c.time i % 2 = 1
      let c := c.tick
      (if connected ∧ c.connected i = false then
        let c := { c with connected := Function.update c.connected i true }
        (xhciSendCommand w fuel enableSlotCmd 1000 c).bind fun (result, c) =>
          match w.inputCtx c.time with
          | some ptr =>
            if result = 0 then
              (xhciSendCommand w fuel (addressDeviceCmd ptr 1 (w.behind c.time)) 1000 c.tick).map Prod.snd
            else some c.tick
          | none => some c.tick
      else if ¬ connected ∧ c.connected i then some { c with connected := Function.update c.connected i false }
      else some c).bind (xhciScanPorts w fuel (i + 1))

def xhciSendCommand (w : XhciWorld) : Nat → Trb → Nat → XhciCtx → Option (Int × XhciCtx)
  | 0, _, _, _ => none
  | fuel + 1, trb, timeoutMs, c =>
    let cmdEnqueue := c.cmdRing.enqueue
    let c := { c with cmdRing := c.cmdRing.xhciRingEnqueue trb }
    xhciAwait w fuel (w.ticks c.time) timeoutMs cmdEnqueue c.tick

/-- The `while` of `xhci_send_command`. -/
def xhciAwait (w : XhciWorld) : Nat → Nat → Nat → Nat → XhciCtx → Option (Int × XhciCtx)
  | 0, _, _, _, _ => none
  | fuel + 1, start, timeoutMs, cmdEnqueue, c =>
    if sub64 (w.ticks c.time) start < timeoutMs then
      (xhciProcessEvents w fuel c.tick).bind fun c =>
        if c.cmdRing.dequeue ≠ cmdEnqueue then some (0, c) else xhciAwait w fuel start timeoutMs cmdEnqueue c
    else some (-1, c.tick)

end

/-- The completion, with success, of the command at index `i` of the ring. -/
def Completes (ring : XhciRing) (i : Nat) (ev : Trb) : Prop :=
  ev.trbType = trbTypeCmdCompleteEvent ∧ ev.status / 16777216 % 256 = 1 ∧ ev.segmentPtr = ring.ringPhys + 16 * i

/-- A call that returns 0 has taken the completion of its command, and every other one reports an error. -/
def ReportsRight (w : XhciWorld) (trb : Trb) (timeoutMs : Nat) (c : XhciCtx) : Prop :=
  ∀ fuel result c', xhciSendCommand w fuel trb timeoutMs c = some (result, c') →
    (result = 0 → ∃ ev ∈ c'.taken.drop c.taken.length, Completes c.cmdRing c.cmdRing.enqueue ev) ∧
      (result ≠ 0 → result < 0)

theorem enqueue_dequeue (ring : XhciRing) (trb : Trb) : (ring.xhciRingEnqueue trb).dequeue = ring.dequeue := by
  unfold XhciRing.xhciRingEnqueue
  dsimp only
  split <;> rfl

variable (w : XhciWorld)

/-- **Nothing moves `cmd_ring.dequeue`.** -/
theorem dequeue_stays : ∀ fuel : Nat,
    (∀ {c c'}, xhciProcessEvents w fuel c = some c' → c'.cmdRing.dequeue = c.cmdRing.dequeue) ∧
    (∀ {i c c'}, xhciScanPorts w fuel i c = some c' → c'.cmdRing.dequeue = c.cmdRing.dequeue) ∧
    (∀ {trb n c r c'}, xhciSendCommand w fuel trb n c = some (r, c') → c'.cmdRing.dequeue = c.cmdRing.dequeue) ∧
    (∀ {start n i c r c'}, xhciAwait w fuel start n i c = some (r, c') → c'.cmdRing.dequeue = c.cmdRing.dequeue)
  | 0 => by simp [xhciProcessEvents, xhciScanPorts, xhciSendCommand, xhciAwait]
  | fuel + 1 => by
    obtain ⟨hevents, hports, hsend, hawait⟩ := dequeue_stays fuel
    refine ⟨fun {c c'} h => ?_, fun {i c c'} h => ?_, fun {trb n c r c'} h => ?_, fun {start n i c r c'} h => ?_⟩
    · rw [xhciProcessEvents] at h
      split at h
      · cases h; rfl
      obtain ⟨d, hd, hrest⟩ := bind_eq_some_iff.1 h
      refine (hevents hrest).trans ?_
      split at hd
      · have hcall := hports hd
        exact hcall
      · cases hd; rfl
    · rw [xhciScanPorts] at h
      dsimp only at h
      split at h
      · cases h; rfl
      obtain ⟨d, hd, hrest⟩ := bind_eq_some_iff.1 h
      refine (hports hrest).trans ?_
      split at hd
      · obtain ⟨⟨r, e⟩, he, hd⟩ := bind_eq_some_iff.1 hd
        have hcall := hsend he
        split at hd
        · split at hd
          · obtain ⟨⟨r', e'⟩, he', rfl⟩ := map_eq_some_iff.1 hd
            exact (hsend he').trans hcall
          · cases hd; exact hcall
        · cases hd; exact hcall
      · split at hd <;> (cases hd; rfl)
    · rw [xhciSendCommand] at h
      exact (hawait h).trans (enqueue_dequeue c.cmdRing trb)
    · rw [xhciAwait] at h
      split at h
      · obtain ⟨d, hd, hrest⟩ := bind_eq_some_iff.1 h
        have hcall := hevents hd
        split at hrest
        · cases hrest; exact hcall
        · exact (hawait hrest).trans hcall
      · cases h; rfl

theorem await_error {start n i : Nat} : ∀ {fuel : Nat} {c : XhciCtx} {r : Int} {c' : XhciCtx}, c.cmdRing.dequeue = i →
    xhciAwait w fuel start n i c = some (r, c') → r = -1
  | 0, _, _, _, _, h => by
    rw [xhciAwait] at h
    cases h
  | fuel + 1, c, r, c', hi, h => by
    rw [xhciAwait] at h
    split at h
    · obtain ⟨d, hd, hrest⟩ := bind_eq_some_iff.1 h
      have hsame : d.cmdRing.dequeue = i := ((dequeue_stays w fuel).1 hd).trans hi
      rw [if_neg (not_not.2 hsame)] at hrest
      exact await_error hsame hrest
    · cases h; rfl

/-- The time stands still and no event is there. -/
def quietWorld (cycleState : Nat) : XhciWorld where
  ticks _ := 0
  event _ _ := ⟨0, 0, 0, if cycleState = 0 then 1 else 0⟩
  portsc _ _ := 0
  inputCtx _ := none
  behind _ := 0#16

theorem quietWorld_returns (trb : Trb) {n : Nat} (hn : 0 < n) {c : XhciCtx}
    (hne : c.cmdRing.dequeue ≠ c.cmdRing.enqueue) :
    ∃ c', xhciSendCommand (quietWorld c.evtRing.cycleState) 3 trb n c = some (0, c') ∧ c'.taken = c.taken := by
  generalize hw : quietWorld c.evtRing.cycleState = w
  have hticks : ∀ t, sub64 (w.ticks t) (w.ticks c.time) < n := fun t => by
    rwa [← hw, quietWorld, sub64_of_le (by decide) (Nat.le_refl 0)]
  have hcycle : ∀ t i, (w.event t i).cycle ≠ c.evtRing.cycleState := fun t i => by
    rw [← hw]
    unfold quietWorld Trb.cycle
    dsimp only
    split <;> omega
  refine ⟨{ c with cmdRing := c.cmdRing.xhciRingEnqueue trb }.tick.tick.tick, ?_, rfl⟩
  simp only [xhciSendCommand, xhciAwait, xhciProcessEvents, XhciCtx.tick, hticks, hcycle, if_true, bind_some, ne_eq,
    not_false_eq_true, enqueue_dequeue, hne]

/-- **Whatever the controller does, `xhci_send_command` reports rightly exactly when it cannot report success**: when it
is called with the ring's `dequeue` where it enqueues, or without time to wait. -/
theorem reportsRight_iff (trb : Trb) (timeoutMs : Nat) (c : XhciCtx) :
    (∀ w, ReportsRight w trb timeoutMs c) ↔ c.cmdRing.dequeue = c.cmdRing.enqueue ∨ timeoutMs = 0 := by
  constructor
  · intro h
    by_contra hno
    obtain ⟨hne, hn⟩ := not_or.1 hno
    obtain ⟨c', hreturn, htaken⟩ := quietWorld_returns trb (Nat.pos_of_ne_zero hn) hne
    obtain ⟨ev, hev, -⟩ := (h _ 3 0 c' hreturn).1 rfl
    rw [htaken, List.drop_length] at hev
    cases hev
  · intro h w fuel result c' hsend
    have herror : result = -1 := by
      cases fuel with
      | zero =>
        rw [xhciSendCommand] at hsend
        cases hsend
      | succ fuel =>
        rw [xhciSendCommand] at hsend
        obtain hsame | rfl := h
        · exact await_error w ((enqueue_dequeue c.cmdRing trb).trans hsame) hsend
        cases fuel with
        | zero =>
          rw [xhciAwait] at hsend
          cases hsend
        | succ fuel =>
          rw [xhciAwait] at hsend
          cases hsend
          rfl
    subst herror
    exact ⟨fun h0 => absurd h0 (by decide), fun _ => by decide⟩

/-- The second command of a driver: `dequeue` is still 0, `enqueue` is 1. -/
def secondCommand : XhciCtx where
  cmdRing := ⟨fun _ => .zero, 4096, 1, 0, 1, 64⟩
  evtRing := ⟨fun _ => .zero, 8192, 0, 0, 1, 256⟩
  maxPorts := 0
  connected _ := false
  time := 0
  taken := []

theorem second_unanswered : ¬ ReportsRight (quietWorld 1) enableSlotCmd 1000 secondCommand := by
  intro h
  obtain ⟨c', hreturn, htaken⟩ := quietWorld_returns enableSlotCmd (show 0 < 1000 by decide)
    (show secondCommand.cmdRing.dequeue ≠ secondCommand.cmdRing.enqueue by decide)
  obtain ⟨ev, hev, -⟩ := (h 3 0 c' hreturn).1 rfl
  rw [htaken] at hev
  cases hev

end OS64
