import OS64.Word
/-!
# XhciRing — the command ring of the USB controller (`drivers/usb/xhci.c`)

Driver and controller share an array of transfer request blocks (TRBs).  A one-bit cycle state says whose a TRB is: the
driver flips it each time it starts again at the front, the controller each time it follows the link at the end.  The
link has to change hands as well; the driver sets its cycle bit once and for all, and the controller does not get past
it a second time (`delivered_iff`).
-/
namespace OS64

open List Nat

structure Trb where
  parameter1 : Nat
  parameter2 : Nat
  status : Nat
  control : Nat
  deriving DecidableEq

namespace Trb

def zero : Trb := ⟨0, 0, 0, 0⟩

def cycle (t : Trb) : Nat := t.control % 2

def toggle (t : Trb) : Nat := t.control / 2 % 2

def trbType (t : Trb) : Nat := t.control / 1024 % 64

def segmentPtr (t : Trb) : Nat := t.parameter1 + t.parameter2 * 4294967296

def body (t : Trb) : Nat × Nat × Nat × Nat := (t.parameter1, t.parameter2, t.status, t.control / 2 % 2147483648)

def setCycle (cycleState : Nat) (t : Trb) : Trb :=
  if cycleState ≠ 0 then { t with control := t.control ||| 1 } else { t with control := t.control &&& 0xFFFFFFFE }

end Trb

def trbTypeLink : Nat := 6

structure XhciRing where
  trbs : Nat → Trb
  ringPhys : Nat
  enqueue : Nat
  dequeue : Nat
  cycleState : Nat
  size : Nat

/-- `xhci_alloc_ring` on the pages at `trbs`; `none` is its `-1`. -/
def xhciAllocRing (trbs size : Nat) : Option XhciRing :=
  if trbs = 0 then none
  else
    let ringPhys := u32 trbs
    let cells : Nat → Trb := fun i =>
      if size > 1 ∧ i = size - 1 then ⟨ringPhys, 0, 0, trbTypeLink * 1024 + 1 * 2 + 1⟩ else Trb.zero
    some ⟨cells, ringPhys, 0, 0, 1, size⟩

namespace XhciRing

def xhciRingEnqueue (ring : XhciRing) (trb : Trb) : XhciRing :=
  let idx := ring.enqueue
  let trbs : Nat → Trb := fun i => if i = idx then trb.setCycle ring.cycleState else ring.trbs i
  let ring := { ring with trbs := trbs, enqueue := u32 (ring.enqueue + 1) }
  if ring.enqueue ≥ sub32 ring.size 1 then { ring with enqueue := 0, cycleState := ring.cycleState ^^^ 1 } else ring

end XhciRing

/-- The controller's side: the address it reads next and its consumer cycle state. -/
structure XhciConsumer where
  ptr : Nat
  ccs : Nat

/-- **One step of the controller**: a TRB of the other cycle is not its own yet; a link is followed; any other is
consumed. It finds TRB `i` of the ring at `ring_phys + 16 * i`. -/
def XhciConsumer.step (ring : XhciRing) (c : XhciConsumer) : XhciConsumer × Option Trb :=
  let trb := ring.trbs ((c.ptr - ring.ringPhys) / 16)
  if trb.cycle ≠ c.ccs then (c, none)
  else if trb.trbType = trbTypeLink then (⟨trb.segmentPtr, if trb.toggle = 1 then c.ccs ^^^ 1 else c.ccs⟩, none)
  else ({ c with ptr := c.ptr + 16 }, some trb)

/-- The ring, the controller, and the commands sent and consumed so far. -/
structure XhciSystem where
  ring : XhciRing
  consumer : XhciConsumer
  sent : List Trb
  taken : List Trb

inductive XhciAct where
  | enqueue (trb : Trb)
  | consume

namespace XhciSystem

/-- The controller starts at the ring's first TRB, with cycle state 1 (what `CRCR` is set to). -/
def start (ring : XhciRing) : XhciSystem := ⟨ring, ⟨ring.ringPhys, 1⟩, [], []⟩

def act (s : XhciSystem) : XhciAct → XhciSystem
  | .enqueue trb => { s with ring := s.ring.xhciRingEnqueue trb, sent := s.sent ++ [trb] }
  | .consume =>
    let (c, trb) := s.consumer.step s.ring
    { s with consumer := c, taken := s.taken ++ trb.toList }

def run (s : XhciSystem) (acts : List XhciAct) : XhciSystem := acts.foldl act s

/-- The producer sends commands only, and never has `size - 2` of them outstanding. -/
def Paced (s : XhciSystem) : List XhciAct → Prop
  | [] => True
  | .enqueue trb :: acts => trb.trbType ≠ trbTypeLink ∧ s.sent.length + 1 - s.taken.length < s.ring.size - 2 ∧
      Paced (s.act (.enqueue trb)) acts
  | .consume :: acts => Paced (s.act .consume) acts

/-- **Each command once and in order**: what the controller has taken is the front of what was sent, and left to itself
it takes the rest. -/
def Delivers (s : XhciSystem) : Prop :=
  s.taken.map Trb.body = (s.sent.take s.taken.length).map Trb.body ∧
    ∃ n, (s.run (List.replicate n .consume)).taken.length = s.sent.length

def Delivered (s : XhciSystem) (acts : List XhciAct) : Prop :=
  ∀ pre post, acts = pre ++ post → Delivers (s.run pre)

def enqueues : List XhciAct → Nat
  | [] => 0
  | .enqueue _ :: acts => enqueues acts + 1
  | .consume :: acts => enqueues acts

end XhciSystem

/-! ## Cycle bits -/

theorem Trb.cycle_setCycle {c : Nat} (h : c < 2) (t : Trb) : (t.setCycle c).cycle = c := by
  obtain rfl | rfl : c = 0 ∨ c = 1 := by omega
  · exact (and_mod_two_pow (n := 1)).trans (and_zero _)
  · exact (or_mod_two_pow (n := 1)).trans (by rcases mod_two_eq_zero_or_one t.control with h | h <;> rw [h] <;> rfl)

theorem Trb.trbType_setCycle (c : Nat) (t : Trb) : (t.setCycle c).trbType = t.trbType := by
  unfold Trb.setCycle Trb.trbType
  split
  · show (t.control ||| 1) / 2 ^ 10 % 64 = t.control / 2 ^ 10 % 64
    rw [or_div_two_pow, or_zero]
  · show (t.control &&& 0xFFFFFFFE) / 2 ^ 10 % 64 = t.control / 2 ^ 10 % 64
    rw [and_div_two_pow, show 0xFFFFFFFE / 2 ^ 10 = 2 ^ 22 - 1 from rfl, and_two_pow_sub_one_eq_mod]
    omega

theorem Trb.body_setCycle (c : Nat) (t : Trb) : (t.setCycle c).body = t.body := by
  have hor : (t.control ||| 1) / 2 = t.control / 2 := by rw [or_div_two, or_zero]
  have hand : (t.control &&& 0xFFFFFFFE) / 2 % 2147483648 = t.control / 2 % 2147483648 := by
    rw [and_div_two, show 0xFFFFFFFE / 2 = 2 ^ 31 - 1 from rfl, and_two_pow_sub_one_eq_mod]
    omega
  unfold Trb.setCycle Trb.body
  split
  · simp only [hor]
  · simp only [hand]

namespace XhciSystem

/-! ## Laps

Both sides are at a place of a lap; a lap has `n` commands, the ring one TRB more. -/

theorem lap_cases {n K d L e : Nat} (hd : d < n) (he : e < n) (hle : n * K + d ≤ n * L + e)
    (hlt : n * L + e < n * K + d + n) : (K = L ∧ d ≤ e) ∨ (K + 1 = L ∧ e < d) := by
  have hKL : K ≤ L := by
    by_contra hgt
    have := mul_le_mul_left n (show L + 1 ≤ K by omega)
    rw [mul_succ] at this
    omega
  have hLK : L ≤ K + 1 := by
    by_contra hgt
    have := mul_le_mul_left n (show K + 1 + 1 ≤ L by omega)
    rw [mul_succ, mul_succ] at this
    omega
  obtain rfl | rfl : K = L ∨ L = K + 1 := by omega
  · exact .inl ⟨rfl, by omega⟩
  · rw [mul_succ] at hle hlt
    exact .inr ⟨rfl, by omega⟩

def link (phys : Nat) : Trb := ⟨phys, 0, 0, trbTypeLink * 1024 + 1 * 2 + 1⟩

theorem link_bits (phys : Nat) :
    (link phys).cycle = 1 ∧ (link phys).trbType = trbTypeLink ∧ (link phys).toggle = 1 := by
  simp [link, Trb.cycle, Trb.trbType, Trb.toggle, trbTypeLink]

/-- **The driver at place `e` of lap `L`, the controller at place `d` of lap `K`** (place `n` is the link). -/
structure At (n : Nat) (s : XhciSystem) (L e K d : Nat) : Prop where
  size : s.ring.size = n + 1
  fits : n + 1 < 4294967296
  sent : s.sent.length = n * L + e
  taken : s.taken.length = n * K + d
  place : e < n
  cplace : d ≤ n
  clap : K ≤ 1
  enqueue : s.ring.enqueue = e
  cycleState : s.ring.cycleState = (L + 1) % 2
  ptr : s.consumer.ptr = s.ring.ringPhys + 16 * d
  ccs : s.consumer.ccs = (K + 1) % 2
  -- the slots written in this lap, those left from the last one, and the link
  fresh : ∀ i, i < e → s.ring.trbs i = (s.sent.getD (n * L + i) .zero).setCycle ((L + 1) % 2)
  stale : ∀ i, e ≤ i → i < n → ∀ l, L = l + 1 → s.ring.trbs i = (s.sent.getD (n * l + i) .zero).setCycle ((l + 1) % 2)
  empty : ∀ i, e ≤ i → i < n → L = 0 → s.ring.trbs i = .zero
  linked : s.ring.trbs n = link s.ring.ringPhys
  commands : ∀ t ∈ s.sent, t.trbType ≠ trbTypeLink
  behind : s.taken.length ≤ s.sent.length
  paced : s.sent.length < s.taken.length + n
  order : s.taken.map Trb.body = (s.sent.take s.taken.length).map Trb.body

variable {n : Nat} {s : XhciSystem} {L e K d : Nat}

theorem getD_append_lt {ts : List Trb} {t : Trb} {i : Nat} (h : i < ts.length) :
    (ts ++ [t]).getD i .zero = ts.getD i .zero := by
  rw [getD_eq_getElem?_getD, List.getElem?_append_left h, ← getD_eq_getElem?_getD]

theorem getD_append_len {ts : List Trb} {t : Trb} {i : Nat} (h : i = ts.length) : (ts ++ [t]).getD i .zero = t := by
  rw [h, getD_eq_getElem?_getD, List.getElem?_append_right le_rfl, Nat.sub_self]
  rfl

theorem At.enqueueRing (h : At n s L e K d) (trb : Trb) :
    (s.ring.xhciRingEnqueue trb).size = s.ring.size ∧ (s.ring.xhciRingEnqueue trb).ringPhys = s.ring.ringPhys ∧
    (∀ i, (s.ring.xhciRingEnqueue trb).trbs i = if i = e then trb.setCycle ((L + 1) % 2) else s.ring.trbs i) ∧
    (s.ring.xhciRingEnqueue trb).enqueue = (if e + 1 < n then e + 1 else 0) ∧
    (s.ring.xhciRingEnqueue trb).cycleState = if e + 1 < n then (L + 1) % 2 else L % 2 := by
  have hsub : sub32 s.ring.size 1 = n := by
    rw [h.size, sub32_of_le h.fits (succ_pos n)]
    rfl
  have hnext : u32 (s.ring.enqueue + 1) = e + 1 := by
    rw [h.enqueue]
    exact u32_of_lt (by have := h.place; have := h.fits; omega)
  have hflip : s.ring.cycleState ^^^ 1 = L % 2 := by
    rw [h.cycleState]
    rcases mod_two_eq_zero_or_one L with hL | hL
    · rw [hL, show (L + 1) % 2 = 1 by omega]
      rfl
    · rw [hL, show (L + 1) % 2 = 0 by omega]
      rfl
  unfold XhciRing.xhciRingEnqueue
  simp only [hsub, hnext]
  by_cases hlast : e + 1 < n
  · rw [if_neg (not_le.2 hlast), if_pos hlast, if_pos hlast]
    exact ⟨rfl, rfl, fun i => by simp only [h.enqueue, h.cycleState], rfl, h.cycleState⟩
  · rw [if_pos (not_lt.1 hlast), if_neg hlast, if_neg hlast]
    exact ⟨rfl, rfl, fun i => by simp only [h.enqueue, h.cycleState], rfl, hflip⟩

/-- **Sending a command** moves the driver to the next place. -/
theorem At.enqueueStep (h : At n s L e K d) {trb : Trb} (htype : trb.trbType ≠ trbTypeLink)
    (hroom : s.sent.length + 1 < s.taken.length + n) : ∃ L' e', At n (s.act (.enqueue trb)) L' e' K d := by
  obtain ⟨hsize, hphys, htrbs, henq, hcyc⟩ := h.enqueueRing trb
  have hlen := h.sent
  have hplace := h.place
  have hold : ∀ i, i < n * L + e → (s.sent ++ [trb]).getD i .zero = s.sent.getD i .zero := fun i hi =>
    getD_append_lt (by omega)
  have hnew : (s.sent ++ [trb]).getD (n * L + e) .zero = trb := getD_append_len hlen.symm
  have hlinked : (s.ring.xhciRingEnqueue trb).trbs n = link (s.ring.xhciRingEnqueue trb).ringPhys := by
    rw [htrbs, if_neg (by omega), hphys]
    exact h.linked
  have hcmds : ∀ t ∈ s.sent ++ [trb], t.trbType ≠ trbTypeLink := fun t ht => by
    rcases mem_append.1 ht with ht | ht
    · exact h.commands t ht
    · rwa [mem_singleton.1 ht]
  have horder : s.taken.map Trb.body = ((s.sent ++ [trb]).take s.taken.length).map Trb.body := by
    rw [take_append_of_le_length h.behind]
    exact h.order
  have hbehind : s.taken.length ≤ (s.sent ++ [trb]).length := by
    rw [length_append]
    exact h.behind.trans (le_add_right _ _)
  have hpaced : (s.sent ++ [trb]).length < s.taken.length + n := by
    rwa [length_append]
  have hsent : (s.sent ++ [trb]).length = n * L + (e + 1) := by
    rw [length_append, hlen]
    rfl
  -- this lap's slots, the new one included
  have hfresh : ∀ i, i < e + 1 →
      (s.ring.xhciRingEnqueue trb).trbs i = ((s.sent ++ [trb]).getD (n * L + i) .zero).setCycle ((L + 1) % 2) := by
    intro i hi
    rw [htrbs]
    by_cases hie : i = e
    · rw [if_pos hie, hie, hnew]
    · rw [if_neg hie, hold _ (by omega)]
      exact h.fresh i (by omega)
  by_cases hlast : e + 1 < n
  · rw [if_pos hlast] at henq hcyc
    refine ⟨L, e + 1, hsize.trans h.size, h.fits, hsent, h.taken, hlast, h.cplace, h.clap, henq, hcyc,
      hphys ▸ h.ptr, h.ccs, hfresh, ?_, ?_, hlinked, hcmds, hbehind, hpaced, horder⟩
    · intro i hi hin l hl
      show (s.ring.xhciRingEnqueue trb).trbs i = _
      have hlt : n * l + i < n * L + e := by
        rw [hl, mul_succ]
        omega
      rw [htrbs, if_neg (by omega), h.stale i (by omega) hin l hl]
      exact congrArg _ (hold _ hlt).symm
    · intro i hi hin hL
      show (s.ring.xhciRingEnqueue trb).trbs i = _
      rw [htrbs, if_neg (by omega)]
      exact h.empty i (by omega) hin hL
  · -- the place was the last of the lap
    obtain rfl : n = e + 1 := by omega
    rw [if_neg hlast] at henq hcyc
    refine ⟨L + 1, 0, hsize.trans h.size, h.fits, by exact hsent, h.taken, succ_pos e, h.cplace,
      h.clap, henq, ?_, hphys ▸ h.ptr, h.ccs, fun i hi => absurd hi (not_lt_zero i), ?_, ?_, hlinked, hcmds, hbehind,
      hpaced, horder⟩
    · show (s.ring.xhciRingEnqueue trb).cycleState = _
      omega
    · intro i _ hin l hl
      cases hl
      exact hfresh i hin
    · intro i _ _ hL
      cases hL

/-! ## The controller's side -/

theorem At.reads (h : At n s L e K d) : (s.consumer.ptr - s.ring.ringPhys) / 16 = d := by
  rw [h.ptr]
  omega

section
variable (h : At n s L e K d) (hd : d < n)
include h hd

theorem At.next (hlt : s.taken.length < s.sent.length) :
    s.ring.trbs d = (s.sent.getD s.taken.length .zero).setCycle ((K + 1) % 2) := by
  have hsent := h.sent
  have htaken := h.taken
  have hpaced := h.paced
  rw [htaken]
  rcases lap_cases (K := K) (L := L) hd h.place (by omega) (by omega) with ⟨rfl, hde⟩ | ⟨hL, hed⟩
  · exact h.fresh d (by omega)
  · exact h.stale d hed.le hd K hL.symm

theorem At.last (heq : s.taken.length = s.sent.length) : (s.ring.trbs d).cycle ≠ (K + 1) % 2 := by
  have hsent := h.sent
  have htaken := h.taken
  rcases lap_cases (K := K) (L := L) hd h.place (by omega) (by omega) with ⟨rfl, hde⟩ | ⟨hL, hed⟩
  · cases K with
    | zero =>
      rw [h.empty d (by omega) hd rfl]
      decide
    | succ l =>
      rw [h.stale d (by omega) hd l rfl, Trb.cycle_setCycle (mod_lt _ (by decide))]
      omega
  · subst hL
    rw [mul_succ] at hsent
    omega

theorem At.consumes (hlt : s.taken.length < s.sent.length) :
    s.consumer.step s.ring = ({ s.consumer with ptr := s.consumer.ptr + 16 },
      some ((s.sent.getD s.taken.length .zero).setCycle ((K + 1) % 2))) := by
  have htype : (s.sent.getD s.taken.length .zero).trbType ≠ trbTypeLink := by
    refine h.commands _ ?_
    rw [getD_eq_getElem _ _ hlt]
    exact getElem_mem hlt
  unfold XhciConsumer.step
  simp only [h.reads, h.next hd hlt]
  rw [if_neg (by rw [Trb.cycle_setCycle (mod_lt _ (by decide)), h.ccs]; exact fun hne => hne rfl),
    if_neg (by rwa [Trb.trbType_setCycle])]

theorem At.waits (heq : s.taken.length = s.sent.length) : s.consumer.step s.ring = (s.consumer, none) := by
  unfold XhciConsumer.step
  simp only [h.reads]
  rw [if_pos (by rw [h.ccs]; exact h.last hd heq)]

end

theorem At.follows (h : At n s L e 0 n) : s.consumer.step s.ring = (⟨s.ring.ringPhys, 0⟩, none) := by
  have hptr : (link s.ring.ringPhys).segmentPtr = s.ring.ringPhys := by
    unfold link Trb.segmentPtr
    rw [zero_mul, add_zero]
  unfold XhciConsumer.step
  obtain ⟨hcycle, htype, htoggle⟩ := link_bits s.ring.ringPhys
  simp only [h.reads, h.linked, h.ccs, hptr, hcycle, htype, htoggle]
  rfl

/-- **The second time round it is not**: nobody has changed its cycle bit. -/
theorem At.stuck (h : At n s L e 1 n) : s.consumer.step s.ring = (s.consumer, none) := by
  unfold XhciConsumer.step
  simp only [h.reads, h.linked, h.ccs, (link_bits s.ring.ringPhys).1]
  rfl

theorem At.consume (h : At n s L e K d) (hd : d < n) (hlt : s.taken.length < s.sent.length) :
    At n (s.act .consume) L e K (d + 1) ∧ (s.act .consume).taken.length = s.taken.length + 1 := by
  have hact : s.act .consume = { s with
      consumer := { s.consumer with ptr := s.consumer.ptr + 16 },
      taken := s.taken ++ [(s.sent.getD s.taken.length .zero).setCycle ((K + 1) % 2)] } := by
    unfold act
    rw [h.consumes hd hlt]
    rfl
  have hlen : (s.taken ++ [(s.sent.getD s.taken.length .zero).setCycle ((K + 1) % 2)]).length = s.taken.length + 1 := by
    rw [length_append]
    rfl
  have hpaced := h.paced
  rw [hact]
  refine ⟨⟨h.size, h.fits, h.sent, ?_, h.place, hd, h.clap, h.enqueue, h.cycleState, ?_, h.ccs, h.fresh, h.stale,
    h.empty, h.linked, h.commands, ?_, ?_, ?_⟩, hlen⟩
  · rw [hlen, h.taken]
    rfl
  · rw [h.ptr]
    rfl
  · rwa [hlen]
  · show s.sent.length < (s.taken ++ [_]).length + n
    omega
  · rw [hlen, map_append, h.order, take_succ_eq_append_getElem hlt, map_append, map_singleton,
      map_singleton, Trb.body_setCycle, getD_eq_getElem _ _ hlt]

theorem At.follow (h : At n s L e 0 n) : At n (s.act .consume) L e 1 0 ∧ (s.act .consume).taken = s.taken := by
  have hact : s.act .consume = { s with consumer := ⟨s.ring.ringPhys, 0⟩, taken := s.taken } := by
    unfold act
    rw [h.follows]
    show { s with consumer := ⟨s.ring.ringPhys, 0⟩, taken := s.taken ++ [] } = _
    rw [append_nil]
  have htaken := h.taken
  rw [hact]
  refine ⟨⟨h.size, h.fits, h.sent, ?_, h.place, zero_le n, le_refl 1, h.enqueue, h.cycleState, rfl, rfl, h.fresh,
    h.stale, h.empty, h.linked, h.commands, h.behind, h.paced, h.order⟩, rfl⟩
  omega

theorem stay (hstep : s.consumer.step s.ring = (s.consumer, none)) : s.act .consume = s := by
  unfold act
  rw [hstep]
  show { s with consumer := s.consumer, taken := s.taken ++ [] } = _
  rw [append_nil]

/-- **A step of the controller** keeps it at a place. -/
theorem At.consumeStep (h : At n s L e K d) : ∃ K' d', At n (s.act .consume) L e K' d' := by
  have hcplace := h.cplace
  have hclap := h.clap
  by_cases hd : d < n
  · by_cases hlt : s.taken.length < s.sent.length
    · exact ⟨K, d + 1, (h.consume hd hlt).1⟩
    · rw [stay (h.waits hd (le_antisymm h.behind (not_lt.1 hlt)))]
      exact ⟨K, d, h⟩
  obtain rfl : d = n := by omega
  obtain rfl | rfl : K = 0 ∨ K = 1 := by omega
  · exact ⟨1, 0, h.follow.1⟩
  · rw [stay h.stuck]
    exact ⟨1, d, h⟩

/-! ## Runs -/

def Running (n : Nat) (s : XhciSystem) : Prop := ∃ L e K d, At n s L e K d

theorem Running.consume (h : Running n s) : Running n (s.act .consume) := by
  obtain ⟨L, e, K, d, hat⟩ := h
  obtain ⟨K', d', hat'⟩ := hat.consumeStep
  exact ⟨L, e, K', d', hat'⟩

theorem start_running {trbs size : Nat} {ring : XhciRing} (h : xhciAllocRing trbs size = some ring) (hsize : 3 ≤ size)
    (hlt : size < 2 ^ 32) : Running (size - 1) (start ring) := by
  unfold xhciAllocRing at h
  split at h
  · cases h
  cases h
  refine ⟨0, 0, 0, 0, (Nat.sub_add_cancel (show 1 ≤ size by omega)).symm, by omega, rfl, rfl, by omega, Nat.zero_le _,
    by decide, rfl,
    rfl, rfl, rfl, fun i hi => absurd hi (not_lt_zero i), fun i _ _ l hl => (by cases hl), fun i _ hi _ => ?_, ?_,
    fun t ht => (by cases ht), le_rfl, ?_, rfl⟩
  · exact if_neg (fun hc => absurd hc.2 (by omega))
  · exact if_pos ⟨by omega, rfl⟩
  · show 0 < 0 + (size - 1)
    omega

/-- **Every state of a paced run** is somewhere in its laps. -/
theorem Running.run : ∀ {acts : List XhciAct} {s : XhciSystem}, Running n s → Paced s acts → Running n (s.run acts)
  | [], _, h, _ => h
  | .enqueue trb :: acts, s, h, hp => by
    obtain ⟨htype, hroom, hrest⟩ := hp
    obtain ⟨L, e, K, d, hat⟩ := h
    have hsize := hat.size
    obtain ⟨L', e', hat'⟩ := hat.enqueueStep htype (by omega)
    exact Running.run (s := s.act (.enqueue trb)) ⟨L', e', K, d, hat'⟩ hrest
  | .consume :: acts, s, h, hp => Running.run (s := s.act .consume) h.consume hp

theorem sent_run : ∀ (acts : List XhciAct) (s : XhciSystem), (s.run acts).sent.length = s.sent.length + enqueues acts
  | [], _ => rfl
  | .enqueue trb :: acts, s => by
    show ((s.act (.enqueue trb)).run acts).sent.length = _
    rw [sent_run acts, show (s.act (.enqueue trb)).sent = s.sent ++ [trb] from rfl, length_append]
    show s.sent.length + 1 + enqueues acts = s.sent.length + (enqueues acts + 1)
    omega
  | .consume :: acts, s => by
    show ((s.act .consume).run acts).sent.length = _
    rw [sent_run acts]
    rfl

theorem enqueues_append (as bs : List XhciAct) : enqueues (as ++ bs) = enqueues as + enqueues bs := by
  induction as with
  | nil => exact (zero_add _).symm
  | cons a as ih =>
    cases a with
    | enqueue trb =>
      show enqueues (as ++ bs) + 1 = enqueues as + 1 + enqueues bs
      omega
    | consume => exact ih

theorem Paced.left : ∀ (as bs : List XhciAct) {s : XhciSystem}, Paced s (as ++ bs) → Paced s as
  | [], _, _, _ => trivial
  | .enqueue _ :: as, bs, _, h => ⟨h.1, h.2.1, Paced.left as bs h.2.2⟩
  | .consume :: as, bs, _, h => Paced.left as bs h

theorem consumes_running (k : Nat) : ∀ {s : XhciSystem}, Running n s →
    Running n (s.run (List.replicate k .consume)) := by
  induction k with
  | zero => exact fun h => h
  | succ k ih => exact fun {s} h => ih h.consume

theorem Running.taken_le (h : Running n s) : s.taken.length ≤ 2 * n := by
  obtain ⟨L, e, K, d, hat⟩ := h
  have htaken := hat.taken
  have hcplace := hat.cplace
  have hclap := hat.clap
  obtain rfl | rfl : K = 0 ∨ K = 1 := by omega
  · omega
  · omega

/-- **Progress**: of the first two laps, a command not yet taken is taken within two steps. -/
theorem Running.progress (h : Running n s) (hn : 0 < n) (hlt : s.taken.length < s.sent.length)
    (hlaps : s.sent.length ≤ 2 * n) : ∃ k, Running n (s.run (List.replicate k .consume)) ∧
      (s.run (List.replicate k .consume)).taken.length = s.taken.length + 1 := by
  obtain ⟨L, e, K, d, hat⟩ := h
  have hcplace := hat.cplace
  have hclap := hat.clap
  have htaken := hat.taken
  by_cases hd : d < n
  · obtain ⟨hat', hlen⟩ := hat.consume hd hlt
    exact ⟨1, ⟨L, e, K, d + 1, hat'⟩, hlen⟩
  obtain rfl : d = n := by omega
  obtain rfl : K = 0 := by
    by_contra hK
    obtain rfl : K = 1 := by omega
    omega
  obtain ⟨hat', hsame⟩ := hat.follow
  obtain ⟨hat'', hlen⟩ := hat'.consume hn (by rwa [hsame])
  exact ⟨2, ⟨L, e, 1, 1, hat''⟩, by rwa [← hsame]⟩

theorem run_append (s : XhciSystem) (as bs : List XhciAct) : s.run (as ++ bs) = (s.run as).run bs :=
  foldl_append ..

theorem Running.catchUp (hn : 0 < n) : ∀ (gap : Nat) {s : XhciSystem}, Running n s → s.sent.length ≤ 2 * n →
    s.sent.length = s.taken.length + gap → ∃ k, (s.run (List.replicate k .consume)).taken.length = s.sent.length
  | 0, _, _, _, hgap => ⟨0, hgap.symm⟩
  | gap + 1, s, h, hlaps, hgap => by
    obtain ⟨k, hrun, hlen⟩ := h.progress hn (by omega) hlaps
    have hsent : (s.run (List.replicate k .consume)).sent.length = s.sent.length := by
      rw [sent_run]
      have : ∀ k, enqueues (List.replicate k .consume) = 0 := fun k => by
        induction k with
        | zero => rfl
        | succ k ih => exact ih
      rw [this, add_zero]
    obtain ⟨k', hk'⟩ := Running.catchUp hn gap hrun (by rwa [hsent]) (by omega)
    refine ⟨k + k', ?_⟩
    rw [← replicate_append_replicate, run_append, hk', hsent]

theorem Running.order (h : Running n s) : s.taken.map Trb.body = (s.sent.take s.taken.length).map Trb.body := by
  obtain ⟨L, e, K, d, hat⟩ := h
  exact hat.order

theorem Running.behind (h : Running n s) : s.taken.length ≤ s.sent.length := by
  obtain ⟨L, e, K, d, hat⟩ := h
  exact hat.behind

theorem Running.delivers_iff {s : XhciSystem} {acts : List XhciAct} (hn : 0 < n) (h : Running n s) (hp : Paced s acts)
    (hfresh : s.sent = []) : Delivered s acts ↔ enqueues acts ≤ 2 * n := by
  have hsent : ∀ pre, (s.run pre).sent.length = enqueues pre := fun pre => by
    rw [sent_run, hfresh]
    exact zero_add _
  constructor
  · intro hall
    obtain ⟨-, k, hk⟩ := hall acts [] (append_nil acts).symm
    have hle := (consumes_running k (h.run hp)).taken_le
    rw [hk, hsent] at hle
    exact hle
  · rintro hle pre post rfl
    rw [enqueues_append] at hle
    have hrun := h.run (Paced.left pre post hp)
    exact ⟨hrun.order, hrun.catchUp hn _ (by rw [hsent]; omega) (Nat.add_sub_cancel' hrun.behind).symm⟩

/-- **When the command ring delivers**: for as long as the commands of the run are no more than two laps. -/
theorem delivered_iff (trbs size : Nat) (ring : XhciRing) (acts : List XhciAct) (hsize : 3 ≤ size)
    (hlt : size < 4294967296) (halloc : xhciAllocRing trbs size = some ring) (hp : Paced (start ring) acts) :
    Delivered (start ring) acts ↔ enqueues acts ≤ 2 * (size - 1) :=
  (start_running halloc hsize hlt).delivers_iff (by omega) hp rfl

/-- What `xhci_enable_slot` sends. -/
def enableSlot : Trb := ⟨0, 0, 0, 9 * 512⟩

/-- Two laps of a ring of four. -/
def sixCommands : List XhciAct :=
  [.enqueue enableSlot, .consume, .enqueue enableSlot, .consume, .enqueue enableSlot, .consume, .consume,
    .enqueue enableSlot, .consume, .enqueue enableSlot, .consume, .enqueue enableSlot, .consume, .consume]

def sevenCommands : List XhciAct := sixCommands ++ [.enqueue enableSlot]

theorem sevenCommands_paced {ring : XhciRing} (h : xhciAllocRing 4096 4 = some ring) :
    Paced (start ring) sevenCommands := by
  cases h
  exact ⟨by decide, by decide, by decide, by decide, by decide, by decide, by decide, by decide, by decide, by decide,
    by decide, by decide, by decide, by decide, trivial⟩

theorem fourRing_delivered : ∃ ring, xhciAllocRing 4096 4 = some ring ∧ Delivered (start ring) sixCommands :=
  ⟨_, rfl, (delivered_iff 4096 4 _ sixCommands (by decide) (by decide) rfl
    (Paced.left sixCommands _ (sevenCommands_paced rfl))).2 (by decide)⟩

/-- **On a ring of four, the seventh command is never consumed.** -/
theorem seventh_lost : ∃ ring, xhciAllocRing 4096 4 = some ring ∧ Paced (start ring) sevenCommands ∧
    ¬ Delivered (start ring) sevenCommands := by
  refine ⟨_, rfl, sevenCommands_paced rfl, fun hall => ?_⟩
  have hrun := start_running (show xhciAllocRing 4096 4 = some _ from rfl) (by decide) (by decide)
  exact absurd ((hrun.delivers_iff (by decide) (sevenCommands_paced rfl) rfl).1 hall) (by decide)

/-- **What is taken was sent**, in order and once, in every paced run; but never more of it than two laps. -/
theorem taken_sent (trbs size : Nat) (ring : XhciRing) (acts : List XhciAct) (hsize : 3 ≤ size)
    (hlt : size < 4294967296) (halloc : xhciAllocRing trbs size = some ring) (hp : Paced (start ring) acts) :
    ((start ring).run acts).taken.map Trb.body <+: ((start ring).run acts).sent.map Trb.body ∧
      ((start ring).run acts).taken.length ≤ 2 * (size - 1) := by
  have hrun := (start_running halloc hsize hlt).run hp
  refine ⟨?_, hrun.taken_le⟩
  have hfirst := take_prefix ((start ring).run acts).taken.length ((start ring).run acts).sent
  rw [hrun.order]
  exact hfirst.map _

theorem fourRing_taken : ∃ ring, xhciAllocRing 4096 4 = some ring ∧
    ((start ring).run sevenCommands).taken.map Trb.body <+: ((start ring).run sevenCommands).sent.map Trb.body ∧
    ((start ring).run sevenCommands).taken.length = 6 :=
  have hlaws := taken_sent 4096 4 _ sevenCommands (by decide) (by decide) rfl (sevenCommands_paced rfl)
  ⟨_, rfl, hlaws.1, le_antisymm hlaws.2 (by decide)⟩

end XhciSystem
end OS64
