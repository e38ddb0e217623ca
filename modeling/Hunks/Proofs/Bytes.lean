import Mathlib
import Hunks.Bytes

namespace Hunks

namespace Bytes

theorem modulus_eq (width : Nat) : modulus width = 2 ^ (8 * width) := by
  induction width with
  | zero => rfl
  | succ width ih => rw [modulus, ih, Nat.mul_succ, Nat.pow_add, Nat.mul_comm]

theorem modulus_pos (width : Nat) : 0 < modulus width := by
  rw [modulus_eq]
  exact Nat.two_pow_pos _

@[simp] theorem toNat_nil : toNat [] = 0 := rfl

theorem toNat_foldl (bytes : List UInt8) (n : Nat) :
    bytes.foldl (fun n b ↦ n * 256 + b.toNat) n = n * modulus bytes.length + toNat bytes := by
  induction bytes generalizing n with
  | nil => simp [modulus]
  | cons b bytes ih =>
    have hs : toNat (b :: bytes) = (0 * 256 + b.toNat) * modulus bytes.length + toNat bytes :=
      ih (0 * 256 + b.toNat)
    rw [List.foldl_cons, ih, hs, List.length_cons, modulus]
    ring

theorem toNat_cons (b : UInt8) (bytes : List UInt8) :
    toNat (b :: bytes) = b.toNat * modulus bytes.length + toNat bytes := by
  have h := toNat_foldl bytes (0 * 256 + b.toNat)
  simpa [toNat] using h

theorem toNat_lt (bytes : List UInt8) : toNat bytes < modulus bytes.length := by
  induction bytes with
  | nil => exact Nat.one_pos
  | cons b bytes ih =>
    rw [toNat_cons, List.length_cons, modulus]
    have hb := b.toNat_lt
    have hm := Nat.mul_le_mul_right (modulus bytes.length) (Nat.le_pred_of_lt hb)
    simp only [Nat.pred_eq_sub_one] at hm
    omega

/-- Numbers of one size are told apart by their bytes. -/
theorem toNat_inj {bytes bytes' : List UInt8} (hl : bytes.length = bytes'.length) :
    toNat bytes = toNat bytes' ↔ bytes = bytes' := by
  refine ⟨fun h ↦ ?_, congrArg toNat⟩
  induction bytes generalizing bytes' with
  | nil => exact (List.length_eq_zero_iff.mp hl.symm).symm
  | cons b bytes ih =>
    obtain ⟨b', rest, rfl⟩ := List.exists_cons_of_length_eq_add_one hl.symm
    have hrest : bytes.length = rest.length := Nat.succ.inj hl
    have hlow := toNat_lt bytes
    have hlow' := toNat_lt rest
    rw [toNat_cons, toNat_cons, ← hrest] at h
    rw [← hrest] at hlow'
    have hhigh : b.toNat = b'.toNat := by
      have hdiv := congrArg (· / modulus bytes.length) h
      simpa [Nat.mul_comm _ (modulus _), Nat.mul_add_div (modulus_pos _), Nat.div_eq_of_lt hlow,
        Nat.div_eq_of_lt hlow'] using hdiv
    rw [UInt8.toNat_inj.mp hhigh, ih hrest (by rw [hhigh] at h; omega)]

@[simp] theorem length_ofNat (width n : Nat) : (ofNat width n).length = width := by
  induction width with
  | zero => rfl
  | succ width ih => simp [ofNat, ih]

theorem toNat_ofNat (width n : Nat) : toNat (ofNat width n) = n % modulus width := by
  induction width with
  | zero => simp [ofNat, modulus, Nat.mod_one]
  | succ width ih =>
    rw [ofNat, toNat_cons, length_ofNat, ih, modulus, Nat.mul_comm 256, Nat.mod_mul]
    have hb : (n / modulus width % 256).toUInt8.toNat = n / modulus width % 256 := by
      simp [Nat.toUInt8]
    rw [hb, Nat.mul_comm, Nat.add_comm]

@[simp] theorem length_ofInt (width : Nat) (n : Int) : (ofInt width n).length = width :=
  length_ofNat ..

theorem toNat_ofInt (width : Nat) (n : Int) :
    (toNat (ofInt width n) : Int) = n % 2 ^ (8 * width) := by
  have hm : (0 : Int) < modulus width := by exact_mod_cast modulus_pos width
  have hn := Int.emod_nonneg n (Int.ne_of_gt hm)
  have hl := Int.emod_lt_of_pos n hm
  rw [ofInt, toNat_ofNat, Nat.mod_eq_of_lt (by omega), Int.toNat_of_nonneg hn, modulus_eq]
  norm_cast

@[simp] theorem size_zeros (n : Nat) : (zeros n).size = n := by
  simp [zeros]

@[simp] theorem size_overwrite (data : Bytes) (start : Nat) (bytes : List UInt8) :
    (overwrite data start bytes).size = data.size := by
  induction bytes generalizing data start with
  | nil => rfl
  | cons b bytes ih => rw [overwrite, ih, Array.size_setIfInBounds]

theorem overwrite_outside (data : Bytes) {start i : Nat} {bytes : List UInt8}
    (hi : i < start ∨ start + bytes.length ≤ i) :
    (overwrite data start bytes)[i]? = data[i]? := by
  induction bytes generalizing data start with
  | nil => rfl
  | cons b bytes ih =>
    rw [List.length_cons] at hi
    rw [overwrite, ih _ (by omega), Array.getElem?_setIfInBounds_ne (by omega)]

theorem overwrite_inside (data : Bytes) {start i : Nat} {bytes : List UInt8}
    (hi : i < bytes.length) (hd : start + i < data.size) :
    (overwrite data start bytes)[start + i]? = bytes[i]? := by
  induction bytes generalizing data start i with
  | nil => simp at hi
  | cons b bytes ih =>
    cases i with
    | zero =>
      rw [overwrite, overwrite_outside _ (by omega), Nat.add_zero,
        Array.getElem?_setIfInBounds_self_of_lt (by simpa using hd), List.getElem?_cons_zero]
    | succ i =>
      rw [List.length_cons] at hi
      have hs : start + 1 + i < (data.setIfInBounds start b).size := by
        rw [Array.size_setIfInBounds]
        omega
      rw [overwrite, List.getElem?_cons_succ, ← ih _ (by omega) hs,
        show start + (i + 1) = start + 1 + i by omega]

/-- Two contents that agree byte by byte on a range read the same there. -/
theorem extract_congr {data data' : Bytes} {start stop : Nat} (hs : data.size = data'.size)
    (h : ∀ i, start ≤ i → i < stop → data[i]? = data'[i]?) :
    data.extract start stop = data'.extract start stop := by
  apply Array.ext_getElem?
  intro i
  rw [Array.getElem?_extract, Array.getElem?_extract, hs]
  split
  · exact h _ (by omega) (by omega)
  · rfl

theorem extract_overwrite (data : Bytes) {start : Nat} {bytes : List UInt8}
    (h : start + bytes.length ≤ data.size) :
    ((overwrite data start bytes).extract start (start + bytes.length)).toList = bytes := by
  apply List.ext_getElem?
  intro i
  rw [Array.getElem?_toList, Array.getElem?_extract, size_overwrite, Nat.min_eq_left h]
  split
  · rw [overwrite_inside data (by omega) (by omega)]
  · rw [List.getElem?_eq_none (by omega)]

theorem place?_eq_some {data : Bytes} {offset : Int} {size start : Nat} (ho : 0 ≤ offset) :
    place? data offset size = some start ↔ offset + size ≤ data.size ∧ start = offset.toNat := by
  simp only [place?, if_neg (Int.not_lt.mpr ho), ho, true_and]
  split <;> simp_all [eq_comm]

/-- Whichever end an offset counts from, the bytes at it lie in the data. -/
theorem place?_le {data : Bytes} {offset : Int} {size start : Nat}
    (h : place? data offset size = some start) :
    start + size ≤ data.size ∧ offset + size ≤ data.size := by
  simp only [place?, Option.ite_none_right_eq_some, Option.some.injEq] at h
  obtain ⟨⟨hstart, hstop⟩, rfl⟩ := h
  by_cases ho : offset < 0
  · rw [if_pos ho] at hstart hstop ⊢
    omega
  · rw [if_neg ho] at hstart hstop ⊢
    omega

theorem place?_congr {data data' : Bytes} (h : data'.size = data.size) (offset : Int) (size : Nat) :
    place? data' offset size = place? data offset size := by
  simp only [place?, h]

theorem place?_eq {data : Bytes} {offset : Int} {size : Nat} (ho : 0 ≤ offset)
    (hs : offset + size ≤ data.size) : place? data offset size = some offset.toNat :=
  (place?_eq_some ho).mpr ⟨hs, rfl⟩

theorem size_getD {buffers buffers' : Array Bytes}
    (h : buffers'.map Array.size = buffers.map Array.size) (id : Nat) :
    (buffers'.getD id #[]).size = (buffers.getD id #[]).size := by
  have hid := congrArg (fun sizes ↦ sizes[id]?) h
  simp only [Array.getElem?_map] at hid
  rw [Array.getD_eq_getD_getElem?, Array.getD_eq_getD_getElem?]
  cases hb : buffers[id]? with
  | none =>
    rw [hb, Option.map_none, Option.map_eq_none_iff] at hid
    rw [hid]
  | some buffer =>
    rw [hb, Option.map_some, Option.map_eq_some_iff] at hid
    obtain ⟨buffer', hb', hs⟩ := hid
    rw [hb']
    exact hs

theorem sizes_modify (buffers : Array Bytes) (id start : Nat) (bytes : List UInt8) :
    (buffers.modify id (overwrite · start bytes)).map Array.size = buffers.map Array.size := by
  refine Array.ext_getElem? fun other ↦ ?_
  rw [Array.getElem?_map, Array.getElem?_map, Array.getElem?_modify]
  split
  · rw [Option.map_map]
    refine congrArg (Option.map · _) (funext fun data ↦ ?_)
    exact size_overwrite data start bytes
  · rfl

theorem getD_modify (buffers : Array Bytes) (id other start : Nat) (bytes : List UInt8) :
    (buffers.modify id (overwrite · start bytes)).getD other #[] =
      if id = other then overwrite (buffers.getD other #[]) start bytes
      else buffers.getD other #[] := by
  rw [Array.getD_eq_getD_getElem?, Array.getD_eq_getD_getElem?, Array.getElem?_modify]
  split
  · cases hb : buffers[other]? with
    | none => exact (Array.eq_empty_of_size_eq_zero (size_overwrite ..)).symm
    | some data => rfl
  · rfl

end Bytes

end Hunks
