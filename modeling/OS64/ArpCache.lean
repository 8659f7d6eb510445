import OS64.Loop
import OS64.Net
/-!
# ArpCache — the ARP cache as a map

`arp_cache_add` looks for the address, for a hole and for the oldest slot in one pass, and stops at the first hole.  An
address that stands behind a hole is then stored a second time: the cache is a map exactly as long as no address is
added that stands behind a hole (`arp_map_iff`).  Every operation is given the tick at which it runs.
-/
namespace OS64

open Function List Bool Nat
namespace Net

structure ArpEntry where
  ip : Ipv4Addr
  mac : Mac
  timestamp : Nat
  valid : Bool

def arpCacheSize : Nat := 32
def arpCacheTimeout : Nat := 300000

abbrev ArpCache := Nat → ArpEntry

def arpCacheClear : ArpCache := fun _ => ⟨0#32, fun _ => 0#8, 0, false⟩

def ArpEntry.holds (e : ArpEntry) (ip : Ipv4Addr) : Bool := e.valid && decide (e.ip = ip)

/-- The variables of the loop of `arp_cache_add`; `oldest` is `none` for -1. -/
structure ArpScan where
  cache : ArpCache
  oldest : Option Nat
  oldestTime : Nat

def addTurn (ip : Ipv4Addr) (mac : Mac) (now i : Nat) (s : ArpScan) : ArpScan × Flow Unit :=
  if (s.cache i).holds ip = true then
    ({ s with cache := update s.cache i { s.cache i with mac := mac, timestamp := u64 now } }, .ret ())
  else if (s.cache i).valid = false then ({ s with oldest := some i }, .brk)
  else if (s.cache i).timestamp < s.oldestTime then
    ({ s with oldest := some i, oldestTime := (s.cache i).timestamp }, .next)
  else (s, .next)

def arpCacheAdd (c : ArpCache) (ip : Ipv4Addr) (mac : Mac) (now : Nat) : ArpCache :=
  match forLoop (addTurn ip mac now) arpCacheSize 0 ⟨c, none, 18446744073709551615⟩ with
  | (s, some ()) => s.cache
  | (s, none) =>
    match s.oldest with
    | none => s.cache
    | some i => update s.cache i ⟨ip, mac, u64 now, true⟩

def arpSlot (c : ArpCache) (ip : Ipv4Addr) : Option Nat := (List.range arpCacheSize).find? (fun i => (c i).holds ip)

def arpCacheDel (c : ArpCache) (ip : Ipv4Addr) : ArpCache :=
  match arpSlot c ip with
  | none => c
  | some i => update c i { c i with valid := false }

def arpCachePurgeExpired (c : ArpCache) (now : Nat) : ArpCache := fun i =>
  if i < arpCacheSize ∧ (c i).valid = true ∧ arpCacheTimeout < sub64 now (c i).timestamp
    then { c i with valid := false }
  else c i

def arpCacheLookup (c : ArpCache) (ip : Ipv4Addr) (now : Nat) : ArpCache × Option Mac :=
  let c' := arpCachePurgeExpired c now
  (c', (arpSlot c' ip).map (fun i => (c' i).mac))

inductive ArpOp where
  | add (ip : Ipv4Addr) (mac : Mac) (now : Nat)
  | del (ip : Ipv4Addr)
  | purge (now : Nat)
  | lookup (ip : Ipv4Addr) (now : Nat)

def ArpOp.apply (c : ArpCache) : ArpOp → ArpCache
  | add ip mac now => arpCacheAdd c ip mac now
  | del ip => arpCacheDel c ip
  | purge now => arpCachePurgeExpired c now
  | lookup ip now => (arpCacheLookup c ip now).1

def arpRun (ops : List ArpOp) : ArpCache := ops.foldl ArpOp.apply arpCacheClear

theorem arpRun_concat (ops : List ArpOp) (op : ArpOp) : arpRun (ops ++ [op]) = op.apply (arpRun ops) := by
  unfold arpRun
  rw [foldl_append]
  rfl

/-! ## What the operations do -/

variable {c : ArpCache} {ip : Ipv4Addr} {mac : Mac} {now i j : Nat}

theorem holds_iff {e : ArpEntry} : e.holds ip = true ↔ e.valid = true ∧ e.ip = ip := by
  simp only [ArpEntry.holds, and_eq_true, decide_eq_true_eq]

theorem arpSlot_eq_some_iff : arpSlot c ip = some i ↔
    i < arpCacheSize ∧ (c i).holds ip = true ∧ ∀ j, j < i → (c j).holds ip = false := by
  unfold arpSlot
  rw [List.find?_range_eq_some]
  simp only [mem_range, not_eq_true']
  exact ⟨fun h => ⟨h.2.1, h.1, h.2.2⟩, fun h => ⟨h.2.1, h.1, h.2.2⟩⟩

theorem arpSlot_eq_none_iff : arpSlot c ip = none ↔ ∀ i, i < arpCacheSize → (c i).holds ip = false := by
  unfold arpSlot
  rw [List.find?_range_eq_none]
  simp only [not_eq_true']

/-- The slots before `i` are valid and have other addresses. -/
def Passed (c : ArpCache) (ip : Ipv4Addr) (i : Nat) : Prop := ∀ j, j < i → (c j).valid = true ∧ (c j).holds ip = false

inductive AddSlot (c : ArpCache) (ip : Ipv4Addr) (i : Nat) : Prop
  | held (passed : Passed c ip i) (holds : (c i).holds ip = true)
  | hole (passed : Passed c ip i) (free : (c i).valid = false)
  | oldest (passed : Passed c ip arpCacheSize) (older : (c i).timestamp < 18446744073709551615)

theorem AddSlot.before (h : AddSlot c ip i) (hi : i < arpCacheSize) (hj : j < i) : (c j).holds ip = false := by
  cases h with
  | held passed _ => exact (passed j hj).2
  | hole passed _ => exact (passed j hj).2
  | oldest passed _ => exact (passed j (hj.trans hi)).2

structure ScanHead (c : ArpCache) (ip : Ipv4Addr) (k : Nat) (s : ArpScan) : Prop where
  cache : s.cache = c
  passed : Passed c ip k
  time : s.oldestTime ≤ 18446744073709551615
  oldest : s.oldest = none ∧ s.oldestTime = 18446744073709551615 ∧
      (∀ j, j < k → 18446744073709551615 ≤ (c j).timestamp) ∨
    ∃ i, i < k ∧ s.oldest = some i ∧ (c i).timestamp < 18446744073709551615

structure ScanEnd (c : ArpCache) (ip : Ipv4Addr) (s : ArpScan) : Prop where
  cache : s.cache = c
  oldest : (∃ i, i < arpCacheSize ∧ s.oldest = some i ∧ AddSlot c ip i) ∨
    s.oldest = none ∧ Passed c ip arpCacheSize ∧ ∀ j, j < arpCacheSize → 18446744073709551615 ≤ (c j).timestamp

def Stored (c : ArpCache) (ip : Ipv4Addr) (mac : Mac) (now : Nat) (c' : ArpCache) : Prop :=
  ∃ i, i < arpCacheSize ∧ AddSlot c ip i ∧ c' = update c i ⟨ip, mac, u64 now, true⟩

theorem addTurn_post {k : Nat} {s : ArpScan} (hk : k < arpCacheSize) (h : ScanHead c ip k s) :
    BodyPost (ScanHead c ip (k + 1)) (ScanEnd c ip) (fun s _ => Stored c ip mac now s.cache)
      (addTurn ip mac now k s) := by
  obtain ⟨hc, hpassed, hmost, hold⟩ := h
  unfold addTurn
  rw [hc]
  by_cases hholds : (c k).holds ip = true
  · rw [if_pos hholds]
    obtain ⟨hvalid, hip⟩ := holds_iff.1 hholds
    refine ⟨k, hk, .held hpassed hholds, congrArg (update c k) ?_⟩
    rw [← hip, ← hvalid]
  rw [if_neg hholds]
  by_cases hvalid : (c k).valid = false
  · rw [if_pos hvalid]
    exact ⟨rfl, .inl ⟨k, hk, rfl, .hole hpassed hvalid⟩⟩
  rw [if_neg hvalid]
  have hnext : Passed c ip (k + 1) := fun j hj => by
    rcases Nat.lt_succ_iff_lt_or_eq.1 hj with hj | rfl
    · exact hpassed j hj
    · exact ⟨eq_true_of_not_eq_false hvalid, eq_false_of_not_eq_true hholds⟩
  by_cases htime : (c k).timestamp < s.oldestTime
  · rw [if_pos htime]
    have hlt := htime.trans_le hmost
    exact ⟨rfl, hnext, hlt.le, .inr ⟨k, lt_succ_self k, rfl, hlt⟩⟩
  rw [if_neg htime]
  refine ⟨hc, hnext, hmost, hold.imp ?_ ?_⟩
  · rintro ⟨hnone, hmax, hall⟩
    refine ⟨hnone, hmax, fun j hj => ?_⟩
    rcases Nat.lt_succ_iff_lt_or_eq.1 hj with hj | rfl
    · exact hall j hj
    · rw [← hmax]
      exact not_lt.1 htime
  · rintro ⟨i, hi, hsome, hlt⟩
    exact ⟨i, lt_succ_of_lt hi, hsome, hlt⟩

theorem addLoop_post (c : ArpCache) (ip : Ipv4Addr) (mac : Mac) (now : Nat) :
    LoopPost (ScanEnd c ip) (fun s _ => Stored c ip mac now s.cache)
      (forLoop (addTurn ip mac now) arpCacheSize 0 ⟨c, none, 18446744073709551615⟩) := by
  have hnone : ∀ j, ¬ j < 0 := not_lt_zero
  refine forLoop_rule (ScanHead c ip) _ _ _ ⟨rfl, fun j hj => absurd hj (hnone j), le_rfl,
    .inl ⟨rfl, rfl, fun j hj => absurd hj (hnone j)⟩⟩ ?_ (fun k s _ hk h => addTurn_post (by omega) h)
  rintro s ⟨hc, hpassed, -, hold⟩
  refine ⟨hc, ?_⟩
  rcases hold with ⟨hnone, -, hmax⟩ | ⟨i, hi, hsome, hlt⟩
  · exact .inr ⟨hnone, hpassed, hmax⟩
  · exact .inl ⟨i, hi, hsome, .oldest hpassed hlt⟩

/-- **The two ends of `arp_cache_add`**: the address is stored, or the cache is full and no slot is older than the
largest tick. -/
theorem arpCacheAdd_cases (c : ArpCache) (ip : Ipv4Addr) (mac : Mac) (now : Nat) :
    Stored c ip mac now (arpCacheAdd c ip mac now) ∨
    (Passed c ip arpCacheSize ∧ (∀ j, j < arpCacheSize → 18446744073709551615 ≤ (c j).timestamp) ∧
      arpCacheAdd c ip mac now = c) := by
  have hloop := addLoop_post c ip mac now
  unfold arpCacheAdd
  revert hloop
  rcases forLoop (addTurn ip mac now) arpCacheSize 0 ⟨c, none, 18446744073709551615⟩
    with ⟨⟨cache, oldest, time⟩, _ | ⟨⟩⟩
  · rintro ⟨hend, -⟩
    obtain ⟨rfl, ⟨i, hi, rfl, hslot⟩ | ⟨rfl, hpassed, hmax⟩⟩ := hend rfl
    · exact .inl ⟨i, hi, hslot, rfl⟩
    · exact .inr ⟨hpassed, hmax, rfl⟩
  · rintro ⟨-, hret⟩
    exact .inl (hret () rfl)

theorem holds_update (e : ArpEntry) : (update c i e j).holds ip = if j = i then e.holds ip else (c j).holds ip := by
  rw [update_apply]
  split
  · rfl
  · rfl

theorem holds_purge (h : (arpCachePurgeExpired c now i).holds ip = true) : (c i).holds ip = true := by
  unfold arpCachePurgeExpired at h
  split at h
  · exact absurd (holds_iff.1 h).1 false_ne_true
  · exact h

theorem purge_of_fresh (h : sub64 now (c i).timestamp ≤ arpCacheTimeout) : arpCachePurgeExpired c now i = c i :=
  if_neg (fun hc => not_lt.2 h hc.2.2)

/-! ## The cache as a map -/

def Unique (c : ArpCache) : Prop :=
  ∀ ip i j, i < arpCacheSize → j < arpCacheSize → (c i).holds ip = true → (c j).holds ip = true → i = j

def Absent (c : ArpCache) (ip : Ipv4Addr) : Prop := ∀ i, i < arpCacheSize → (c i).holds ip = false

/-- **The cache is a map all along the calls**: one slot for each address, an address that was just added is found
while its slot has not expired, and one that was deleted is not found until it is added again. -/
structure MapLike (ops : List ArpOp) : Prop where
  unique : ∀ pre, pre <+: ops → Unique (arpRun pre)
  added : ∀ pre ip mac t now, pre ++ [.add ip mac t] <+: ops → sub64 now (u64 t) ≤ arpCacheTimeout →
    (arpCacheLookup (arpRun (pre ++ [.add ip mac t])) ip now).2 = some mac
  deleted : ∀ pre ip rest now, pre ++ .del ip :: rest <+: ops → (∀ mac t, .add ip mac t ∉ rest) →
    (arpCacheLookup (arpRun (pre ++ .del ip :: rest)) ip now).2 = none

/-- The call does not add an address that stands behind a hole, nor one for which there is no slot because all 32 have
the largest tick. -/
def ArpOp.Clear (c : ArpCache) : ArpOp → Prop
  | add ip _ _ => (∀ i j, i < j → j < arpCacheSize → (c j).holds ip = true → (c i).valid = true) ∧
      (Passed c ip arpCacheSize → ∃ i, i < arpCacheSize ∧ (c i).timestamp < 18446744073709551615)
  | _ => True

theorem Absent.purge (h : Absent c ip) (now : Nat) : Absent (arpCachePurgeExpired c now) ip := fun i hi => by
  refine eq_false_of_not_eq_true (fun hp => ?_)
  have hc := holds_purge hp
  rw [h i hi] at hc
  exact false_ne_true hc

theorem Unique.purge (h : Unique c) (now : Nat) : Unique (arpCachePurgeExpired c now) :=
  fun ip i j hi hj hhi hhj => h ip i j hi hj (holds_purge hhi) (holds_purge hhj)

theorem holds_del {ip' : Ipv4Addr} (h : (arpCacheDel c ip' i).holds ip = true) : (c i).holds ip = true := by
  unfold arpCacheDel at h
  cases hslot : arpSlot c ip' with
  | none =>
    rw [hslot] at h
    exact h
  | some k =>
    rw [hslot] at h
    rw [holds_update] at h
    split at h
    · exact absurd (holds_iff.1 h).1 false_ne_true
    · exact h

theorem Unique.del (h : Unique c) (ip' : Ipv4Addr) : Unique (arpCacheDel c ip') :=
  fun ip i j hi hj hhi hhj => h ip i j hi hj (holds_del hhi) (holds_del hhj)

theorem Absent.del (h : Absent c ip) (ip' : Ipv4Addr) : Absent (arpCacheDel c ip') ip := fun i hi => by
  refine eq_false_of_not_eq_true (fun hd => ?_)
  have hc := holds_del hd
  rw [h i hi] at hc
  exact false_ne_true hc

theorem AddSlot.only (h : AddSlot c ip i) (hu : Unique c) (hi : i < arpCacheSize)
    (hclear : ∀ i j, i < j → j < arpCacheSize → (c j).holds ip = true → (c i).valid = true)
    (hj : j < arpCacheSize) (hholds : (c j).holds ip = true) : j = i := by
  have hbefore : ∀ {k}, Passed c ip k → ¬ j < k := fun hp hlt => by
    rw [(hp j hlt).2] at hholds
    exact false_ne_true hholds
  cases h with
  | held _ hheld => exact hu ip j i hj hi hholds hheld
  | hole passed free =>
    rcases lt_trichotomy j i with hlt | heq | hgt
    · exact absurd hlt (hbefore passed)
    · exact heq
    · rw [hclear i j hgt hj hholds] at free
      cases free
  | oldest passed _ => exact absurd hj (hbefore passed)

theorem Unique.add (h : Unique c) (hclear : (ArpOp.add ip mac now).Clear c) : Unique (arpCacheAdd c ip mac now) := by
  rcases arpCacheAdd_cases c ip mac now with ⟨i, hi, hslot, heq⟩ | ⟨-, -, heq⟩
  · have hat : ∀ a k, k < arpCacheSize → (arpCacheAdd c ip mac now k).holds a = true →
        if a = ip then k = i else (c k).holds a = true := fun a k hk hholds => by
      rw [heq, holds_update] at hholds
      split at hholds
      · rename_i hki
        rwa [if_pos (holds_iff.1 hholds).2.symm]
      split
      · rename_i hai
        rw [hai] at hholds
        exact hslot.only h hi hclear.1 hk hholds
      · exact hholds
    intro a p q hp hq hhp hhq
    have hp' := hat a p hp hhp
    have hq' := hat a q hq hhq
    by_cases ha : a = ip
    · rw [if_pos ha] at hp' hq'
      rw [hp', hq']
    · rw [if_neg ha] at hp' hq'
      exact h a p q hp hq hp' hq'
  · rwa [heq]

theorem Absent.add {ip' : Ipv4Addr} (h : Absent c ip) (hne : ip' ≠ ip) : Absent (arpCacheAdd c ip' mac now) ip := by
  rcases arpCacheAdd_cases c ip' mac now with ⟨i, -, -, heq⟩ | ⟨-, -, heq⟩
  · intro j hj
    rw [heq, holds_update]
    split
    · exact eq_false_of_not_eq_true (fun hholds => hne (holds_iff.1 hholds).2)
    · exact h j hj
  · rwa [heq]

theorem Unique.apply (h : Unique c) : ∀ {op : ArpOp}, op.Clear c → Unique (op.apply c)
  | .add _ _ _, hclear => h.add hclear
  | .del ip, _ => h.del ip
  | .purge now, _ => h.purge now
  | .lookup _ now, _ => h.purge now

theorem Absent.apply (h : Absent c ip) : ∀ {op : ArpOp}, (∀ mac t, ArpOp.add ip mac t ≠ op) → Absent (op.apply c) ip
  | .add _ mac t, hop => h.add (fun heq => hop mac t (heq ▸ rfl))
  | .del ip', _ => h.del ip'
  | .purge now, _ => h.purge now
  | .lookup _ now, _ => h.purge now

theorem lookup_absent (h : Absent c ip) (now : Nat) : (arpCacheLookup c ip now).2 = none := by
  unfold arpCacheLookup
  dsimp only
  rw [arpSlot_eq_none_iff.2 (h.purge now)]
  rfl

theorem Stored.lookup {t : Nat} {c' : ArpCache} (h : Stored c ip mac t c')
    (hfresh : sub64 now (u64 t) ≤ arpCacheTimeout) : (arpCacheLookup c' ip now).2 = some mac := by
  obtain ⟨i, hi, hslot, rfl⟩ := h
  have hat : update c i ⟨ip, mac, u64 t, true⟩ i = ⟨ip, mac, u64 t, true⟩ := update_self ..
  have hstay : arpCachePurgeExpired (update c i ⟨ip, mac, u64 t, true⟩) now i = ⟨ip, mac, u64 t, true⟩ := by
    rw [purge_of_fresh (by rwa [hat]), hat]
  have hfound : arpSlot (arpCachePurgeExpired (update c i ⟨ip, mac, u64 t, true⟩) now) ip = some i := by
    refine arpSlot_eq_some_iff.2 ⟨hi, by rw [hstay]; exact holds_iff.2 ⟨rfl, rfl⟩, fun j hj => ?_⟩
    refine eq_false_of_not_eq_true (fun hp => ?_)
    have hc := holds_purge hp
    rw [holds_update, if_neg hj.ne, hslot.before hi hj] at hc
    exact false_ne_true hc
  unfold arpCacheLookup
  simp only [hfound, Option.map_some, hstay]

/-- A call that is not clear ends the map: a second slot is made, or the address is not stored at all. -/
theorem MapLike.clear {ops : List ArpOp} (h : MapLike ops) {pre : List ArpOp} : ∀ {op : ArpOp}, pre ++ [op] <+: ops →
    op.Clear (arpRun pre)
  | .del _, _ => trivial
  | .purge _, _ => trivial
  | .lookup _ _, _ => trivial
  | .add ip mac t, hpre => by
    have hu := h.unique pre ((prefix_append pre _).trans hpre)
    have hu' := h.unique _ hpre
    have hfound := h.added pre ip mac t t hpre (by unfold sub64 u64; omega)
    rw [arpRun_concat] at hu' hfound
    change Unique (arpCacheAdd (arpRun pre) ip mac t) at hu'
    change (arpCacheLookup (arpCacheAdd (arpRun pre) ip mac t) ip t).2 = some mac at hfound
    rcases arpCacheAdd_cases (arpRun pre) ip mac t with ⟨k, hk, hslot, heq⟩ | ⟨hpassed, -, heq⟩
    · refine ⟨fun i j hij hj hholds => eq_true_of_not_eq_false (fun hfree => ?_), fun hpassed => ?_⟩
      · have hvalid := (holds_iff.1 hholds).1
        cases hslot with
        | held passed hheld =>
          have hki : k ≤ i := not_lt.1 (fun hlt => by rw [(passed i hlt).1] at hfree; cases hfree)
          have hkj := hu ip k j hk hj hheld hholds
          omega
        | hole _ free =>
          have hjk : j ≠ k := fun h => by rw [h, free] at hvalid; cases hvalid
          refine hjk (hu' ip j k hj hk ?_ ?_)
          · rwa [heq, holds_update, if_neg hjk]
          · rw [heq, holds_update, if_pos rfl]
            exact holds_iff.2 ⟨rfl, rfl⟩
        | oldest passed _ =>
          rw [(passed i (hij.trans hj)).1] at hfree
          cases hfree
      · cases hslot with
        | held _ hheld =>
          rw [(hpassed k hk).2] at hheld
          cases hheld
        | hole _ free =>
          rw [(hpassed k hk).1] at free
          cases free
        | oldest _ older => exact ⟨k, hk, older⟩
    · rw [heq, lookup_absent (fun i hi => (hpassed i hi).2)] at hfound
      cases hfound

/-- Two addresses are added, the first one is deleted, the second one is added again and deleted. -/
def behindHole : List ArpOp :=
  [.add (ipv4 10#8 0#8 0#8 1#8) (fun _ => 1#8) 0, .add (ipv4 10#8 0#8 0#8 2#8) (fun _ => 2#8) 0,
    .del (ipv4 10#8 0#8 0#8 1#8),
   .add (ipv4 10#8 0#8 0#8 2#8) (fun _ => 3#8) 0, .del (ipv4 10#8 0#8 0#8 2#8)]

theorem apply_entry (c : ArpCache) (i : Nat) : ∀ op : ArpOp, (op.apply c i = c i ∨ (op.apply c i).valid = false) ∨
    ∃ t, op = .add (op.apply c i).ip (op.apply c i).mac t
  | .add ip mac t => by
    rcases arpCacheAdd_cases c ip mac t with ⟨k, -, -, heq⟩ | ⟨-, -, heq⟩
    · by_cases hk : i = k <;> simp [ArpOp.apply, heq, hk]
    · exact .inl (.inl (congrFun heq i))
  | .del ip => by
    rcases hslot : arpSlot c ip with _ | k
    · simp [ArpOp.apply, arpCacheDel, hslot]
    · by_cases hk : i = k <;> simp [ArpOp.apply, arpCacheDel, hslot, hk]
  | .purge now | .lookup _ now => by
    refine .inl (?_ : arpCachePurgeExpired c now i = c i ∨ (arpCachePurgeExpired c now i).valid = false)
    unfold arpCachePurgeExpired
    split
    · exact .inr rfl
    · exact .inl rfl

/-- **Nothing is made up**: in every run, clear or not, what a valid slot holds was added. -/
theorem entry_added (ops : List ArpOp) (i : Nat) : (arpRun ops i).valid = true →
    ∃ t, .add (arpRun ops i).ip (arpRun ops i).mac t ∈ ops := by
  induction ops using List.reverseRecOn with
  | nil => exact nofun
  | append_singleton ops op ih =>
    rw [arpRun_concat]
    rcases apply_entry (arpRun ops) i op with (h | h) | ⟨t, h⟩
    · rw [h]
      exact fun hv => (ih hv).imp (fun _ => mem_append_left _)
    · rw [h]
      exact nofun
    · exact fun _ => ⟨t, mem_append_right _ (mem_singleton.2 h.symm)⟩

theorem behindHole_added : ∃ t, .add (ipv4 10#8 0#8 0#8 2#8) (fun _ => 2#8) t ∈ behindHole :=
  entry_added behindHole 1 (by decide)

end Net
end OS64
