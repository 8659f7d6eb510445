import OS64.Bytes
import OS64.Trail
import OS64.Word
/-!
# Clusters — the bytes of a file that lies in clusters

Place `j * B + x` of a list of clusters of `B` bytes is byte `x` of cluster `j`.  `Filled` is what a loop that writes a
buffer to them leaves, `Copied` what a loop that reads them does.
-/
namespace OS64

open List Nat
namespace Clusters

variable {B size off done n c offset : Nat} {on index : Nat → Prop} {buf : Mem} {ls : List Nat} {f g h : Nat → Mem}

/-- From place `off` of the clusters `ls` on stand the bytes of the buffer from `done` on; the rest is as it was. -/
structure Filled (B : Nat) (on index : Nat → Prop) (buf : Mem) (size : Nat) (ls : List Nat) (off done : Nat)
    (f g : Nat → Mem) : Prop where
  put : ∀ j x, j < ls.length → x < B → on (ls.getD j 0) → g (ls.getD j 0) x =
    if off ≤ j * B + x ∧ j * B + x < off + (size - done) then buf (done + (j * B + x - off)) else f (ls.getD j 0) x
  rest : ∀ d x, d ∉ ls → index d → x < B → g d x = f d x

theorem Filled.nil : Filled B on index buf size [] off done f f :=
  ⟨fun j _ hj => absurd hj (not_lt_zero j), fun _ _ _ _ _ => rfl⟩

theorem window_of_write [DecidablePred on] {o d x : Nat} {data new : Mem}
    (hone : g d x = if d = c ∧ on c then new x else f d x)
    (hnew : on c → new x = if o ≤ x ∧ x < o + n then data (x - o) else f c x) :
    g d x = if d = c ∧ on c ∧ o ≤ x ∧ x < o + n then data (x - o) else f d x := by
  rw [hone]
  by_cases hdc : d = c ∧ on c
  · obtain ⟨rfl, hon⟩ := hdc
    rw [if_pos ⟨rfl, hon⟩, hnew hon]
    by_cases hwin : o ≤ x ∧ x < o + n
    · rw [if_pos hwin, if_pos ⟨rfl, hon, hwin⟩]
    · rw [if_neg hwin, if_neg (fun h => hwin h.2.2)]
  · rw [if_neg hdc, if_neg (fun h => hdc ⟨h.1, h.2.1⟩)]

/-- **One turn of the writing loop**: it fills the window of the first cluster, and the others follow. -/
theorem Filled.cons [DecidablePred on] (hidx : ∀ x ∈ c :: ls, index x) (hcl : c ∉ ls) (hoff : off < B)
    (hd : done ≤ size) (hn : min (B - off) (size - done) = n) (hone : ∀ d x, index d → x < B → h d x =
      if d = c ∧ on c ∧ off ≤ x ∧ x < off + n then buf (done + (x - off)) else f d x)
    (ih : Filled B on index buf size ls 0 (done + n) h g) : Filled B on index buf size (c :: ls) off done f g := by
  have hc := hidx c (.head _)
  refine ⟨?_, fun d x hdl hd hx => ?_⟩
  · rintro (_ | j) x hj hx hon
    · rw [getD_cons_zero, ih.rest c x hcl hc hx, hone c x hc hx, zero_mul, zero_add]
      by_cases hwin : off ≤ x ∧ x < off + n
      · rw [if_pos ⟨rfl, hon, hwin⟩, if_pos (by omega)]
      · rw [if_neg (fun h => hwin h.2.2), if_neg (by omega)]
    have hjl : j < ls.length := lt_of_succ_lt_succ hj
    have hne : ls.getD j 0 ≠ c := fun h => hcl (h ▸ getD_mem hjl)
    rw [getD_cons_succ] at hon ⊢
    have hold : h (ls.getD j 0) x = f (ls.getD j 0) x := by
      rw [hone _ x (hidx _ (.tail _ (getD_mem hjl))) hx, if_neg (fun h => hne h.1)]
    rw [ih.put j x hjl hx hon, hold, succ_mul]
    by_cases hwin : 0 ≤ j * B + x ∧ j * B + x < 0 + (size - (done + n))
    · rw [if_pos hwin, if_pos (by omega)]
      congr 1
      omega
    · rw [if_neg hwin, if_neg (by omega)]
  · have hdc : d ≠ c := fun h => hdl (h ▸ (.head _))
    rw [ih.rest d x (fun h => hdl (.tail _ h)) hd hx, hone d x hd hx, if_neg (fun h => hdc h.1)]

theorem range_words (offset : Nat) (hB : 512 ≤ B) (hpos : 0 < size) (hsize : size < 2 ^ 32)
    (hk : offset / B ≤ 2 ^ 30) (hoff : offset ≤ 17592186044416) : u32 (offset / B) = offset / B ∧
      u32 (sub64 (offset + size) 1 / B) = (offset + size - 1) / B ∧
      u32 (sub32 ((offset + size - 1) / B) (offset / B) + 1) = (offset + size - 1) / B - offset / B + 1 := by
  have hlast : (offset + size - 1) / B < offset / B + 1 + 8388608 := by
    rw [div_lt_iff_lt_mul (by omega), add_mul, add_mul]
    have := lt_div_mul_add (a := offset) (b := B) (by omega)
    omega
  have hle : offset / B ≤ (offset + size - 1) / B := Nat.div_le_div_right (by omega)
  refine ⟨u32_of_lt (by omega), ?_, ?_⟩
  · rw [sub64_of_le (by omega) (by omega)]
    exact u32_of_lt (by omega)
  · rw [sub32_of_le (by omega) hle]
    exact u32_of_lt (by omega)

theorem count_cons (hoff : off < B) (hd : done ≤ size) (hn : min (B - off) (size - done) = n) (c : Nat) :
    min size (done + n + (ls.length * B - 0)) = min size (done + ((c :: ls).length * B - off)) := by
  rw [length_cons, succ_mul]
  omega

/-- **A file whose clusters were filled**: the buffer inside the window `[offset, offset + size)`, the old bytes
elsewhere. -/
theorem Filled.window {l : List Nat} {k m q x : Nat} (hB : 0 < B) (hpos : 0 < size) (hk : k = offset / B)
    (hm : k + m = (offset + size - 1) / B + 1) (hls : ls = (l.drop k).take m) (hlen : k + m ≤ l.length) (hnd : l.Nodup)
    (h : Filled B on index buf size ls (offset % B) 0 f g) (hq : q < l.length) (hx : x < B) (hon : on (l.getD q 0))
    (hidx : index (l.getD q 0)) : g (l.getD q 0) x =
      if offset ≤ q * B + x ∧ q * B + x < offset + size then buf (q * B + x - offset) else f (l.getD q 0) x := by
  have hod := div_add_mod' offset B
  have hed := div_add_mod' (offset + size - 1) B
  have hem := mod_lt (offset + size - 1) hB
  have hcl : ls.length = m := by
    rw [hls, length_take, length_drop]
    omega
  rw [← hk] at hod
  generalize (offset + size - 1) / B = ke at *
  by_cases hin : k ≤ q ∧ q < k + m
  · have hget : ls.getD (q - k) 0 = l.getD q 0 := by
      rw [hls, getD_eq_getElem?_getD, List.getElem?_take_of_lt (by omega), List.getElem?_drop,
        Nat.add_sub_cancel' hin.1, ← getD_eq_getElem?_getD]
    have hbyte := h.put (q - k) x (by omega) hx (by rwa [hget])
    have hmul : (q - k) * B = q * B - k * B := Nat.sub_mul ..
    have hle : k * B ≤ q * B := mul_le_mul_right _ hin.1
    rw [hget, Nat.sub_zero] at hbyte
    rw [hbyte]
    by_cases hwin : offset ≤ q * B + x ∧ q * B + x < offset + size
    · rw [if_pos hwin, if_pos (by omega)]
      congr 1
      omega
    · rw [if_neg hwin, if_neg (by omega)]
  · have hnot : l.getD q 0 ∉ ls := by
      rw [hls, getD_eq_getElem _ _ hq]
      intro hmem
      obtain ⟨i, hi, hieq⟩ := getElem_of_mem hmem
      rw [length_take] at hi
      rw [getElem_take, getElem_drop] at hieq
      have := (hnd.getElem_inj_iff).1 hieq
      omega
    rw [h.rest _ _ hnot hidx hx, if_neg]
    rintro ⟨h1, h2⟩
    rcases lt_or_ge q k with hlt | hge
    · have : (q + 1) * B ≤ k * B := mul_le_mul_right _ hlt
      rw [succ_mul] at this
      omega
    · have : (ke + 1) * B ≤ q * B := mul_le_mul_right _ (by omega)
      rw [succ_mul] at this
      omega

/-! ## Reading -/

variable {len done' toRead : Nat} {byte byte' : Nat → Mem} {buf' : Mem}

/-- `len` clusters, `byte j` being what was read of number `j`, were copied to the buffer from place `off` on, up to
`toRead` bytes in all. -/
structure Copied (B toRead len : Nat) (byte : Nat → Mem) (off done done' : Nat) (buf buf' : Mem) : Prop where
  count : done' = min toRead (done + (len * B - off))
  bytes : ∀ j o, j < len → o < B → off ≤ j * B + o → done + (j * B + o - off) < done' →
    buf' (done + (j * B + o - off)) = byte j o
  rest : ∀ i, i < done ∨ done' ≤ i → buf' i = buf i

theorem Copied.nil (hd : done ≤ toRead) : Copied B toRead 0 byte off done done buf buf where
  count := by
    omega
  bytes j _ hj := absurd hj (not_lt_zero j)
  rest _ _ := rfl

theorem Copied.full (hd : done = toRead) : Copied B toRead len byte off done done buf buf :=
  ⟨by omega, fun _ _ _ _ _ hlt => absurd hlt (by omega), fun _ _ => rfl⟩

/-- **One turn of the reading loop.** -/
theorem Copied.cons {first : Mem} (hoff : off < B) (hd : done < toRead) (hn : min (B - off) (toRead - done) = n)
    (h0 : byte 0 = first) (hs : ∀ j, byte (j + 1) = byte' j)
    (h : Copied B toRead len byte' 0 (done + n) done' (blit buf done n (fun o => first (off + o))) buf') :
    Copied B toRead (len + 1) byte off done done' buf buf' := by
  obtain ⟨hdone, hbytes, hrest⟩ := h
  refine ⟨by rw [succ_mul]; omega, ?_, fun i hi => by rw [hrest i (by omega), blit_apart _ _ (by omega)]⟩
  rintro (_ | j) o hj ho hle hlt
  · rw [zero_mul, zero_add] at hle hlt ⊢
    rw [hrest _ (.inl (by omega)), blit_at _ _ (by omega), Nat.add_sub_cancel' hle, h0]
  rw [succ_mul] at hle hlt ⊢
  have hplace : done + (j * B + B + o - off) = done + n + (j * B + o - 0) := by omega
  rw [hplace] at hlt ⊢
  rw [hs]
  exact hbytes j o (lt_of_succ_lt_succ hj) ho (zero_le _) hlt

/-- **What a read from `offset` on has in its buffer**: byte `i` is byte `(offset + i) % B` of the cluster it falls
in. -/
theorem Copied.slice {L : Nat} (hB : 0 < B) (hk : offset / B < L)
    (h : Copied B toRead (L - offset / B) byte (offset % B) 0 done' buf buf') :
    done' = min toRead (L * B - offset) ∧ ∀ i, i < done' → (offset + i) / B < L ∧ offset / B ≤ (offset + i) / B ∧
      buf' i = byte ((offset + i) / B - offset / B) ((offset + i) % B) := by
  have hoffset := div_add_mod' offset B
  have hrest : (L - offset / B) * B - offset % B = L * B - offset := by
    rw [Nat.sub_mul]
    omega
  obtain ⟨hdone, hbytes, -⟩ := h
  simp only [zero_add, hrest] at hdone hbytes
  refine ⟨hdone, fun i hi => ?_⟩
  have hle : offset / B ≤ (offset + i) / B := Nat.div_le_div_right (by omega)
  have hkl : (offset + i) / B < L := (div_lt_iff_lt_mul hB).2 (by omega)
  have hplace : ((offset + i) / B - offset / B) * B + (offset + i) % B = offset % B + i := by
    have hp := div_add_mod' (offset + i) B
    have hmul : offset / B * B ≤ (offset + i) / B * B := mul_le_mul_right B hle
    rw [Nat.sub_mul]
    omega
  have hbyte := hbytes ((offset + i) / B - offset / B) ((offset + i) % B) (by omega) (mod_lt _ hB) (by omega) (by omega)
  rw [hplace, Nat.add_sub_cancel_left] at hbyte
  exact ⟨hkl, hle, hbyte⟩

end Clusters
end OS64
