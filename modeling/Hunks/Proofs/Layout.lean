import Mathlib
import Hunks.Image.Relocate

namespace Hunks

/-- Each segment has a buffer of its own size. -/
structure Image.Filled (image : Image) (buffers : List Bytes) : Prop where
  length : buffers.length = image.segments.length
  size : ∀ (id : Nat) (segment : Segment) (buffer : Bytes), image.segments[id]? = some segment →
    buffers[id]? = some buffer → buffer.size = segment.size

namespace Image

variable {base padding address address' : Int} {sizes : List Nat} {i j id : Nat}

@[simp] theorem length_layoutFrom (padding base : Int) (sizes : List Nat) :
    (layoutFrom padding base sizes).length = sizes.length := by
  induction sizes generalizing base with
  | nil => rfl
  | cons size sizes ih => rw [layoutFrom, List.length_cons, ih, List.length_cons]

@[simp] theorem length_layout (image : Image) (base padding : Int) :
    (image.layout base padding).length = image.segments.length := by
  rw [layout, length_layoutFrom, Image.sizes, List.length_map]

/-- The address of a segment follows from the sizes of those before it. -/
theorem layoutFrom_getElem? (padding base : Int) (hi : i < sizes.length) :
    (layoutFrom padding base sizes)[i]? = some (base + ((sizes.take i).sum : Nat) + i * padding) := by
  induction sizes generalizing base i with
  | nil => simp at hi
  | cons size sizes ih =>
    cases i with
    | zero => simp [layoutFrom]
    | succ i =>
      have hlt : i < sizes.length := by simpa using hi
      rw [layoutFrom, List.getElem?_cons_succ, ih _ hlt, List.take_succ_cons, List.sum_cons]
      push_cast
      ring_nf

theorem layoutFrom_eq_some (h : (layoutFrom padding base sizes)[i]? = some address) :
    address = base + ((sizes.take i).sum : Nat) + i * padding := by
  have hi : i < sizes.length := by
    have hlt := (List.getElem?_eq_some_iff.mp h).1
    rwa [length_layoutFrom] at hlt
  rw [layoutFrom_getElem? padding base hi] at h
  exact (Option.some.inj h).symm

theorem sum_take_le (sizes : List Nat) (h : i ≤ j) : (sizes.take i).sum ≤ (sizes.take j).sum := by
  have hsplit : sizes.take j = sizes.take i ++ (sizes.take j).drop i := by
    have htake := List.take_append_drop i (sizes.take j)
    rw [List.take_take, Nat.min_eq_left h] at htake
    exact htake.symm
  rw [hsplit, List.sum_append]
  exact Nat.le_add_right ..

theorem sizes_getElem? {image : Image} {segment : Segment} (hs : image.segments[id]? = some segment) :
    image.sizes[id]? = some segment.size := by
  rw [sizes, List.getElem?_map, hs]
  rfl

theorem sum_take_succ {size : Nat} (hs : sizes[id]? = some size) :
    (sizes.take (id + 1)).sum = (sizes.take id).sum + size := by
  rw [List.take_add_one, hs, Option.toList_some, List.sum_append, List.sum_singleton]

theorem layout_succ {image : Image} {segment : Segment} (hs : image.segments[id]? = some segment)
    (ha : (image.layout base padding)[id]? = some address)
    (ha' : (image.layout base padding)[id + 1]? = some address') :
    address' = address + segment.size + padding := by
  rw [layoutFrom_eq_some ha, layoutFrom_eq_some ha', sum_take_succ (sizes_getElem? hs)]
  push_cast
  ring

/-- A later segment starts behind the padding of an earlier one. -/
theorem layout_le {image : Image} {segment : Segment} (hp : 0 ≤ padding) (hij : i < j)
    (hs : image.segments[i]? = some segment) (hi : (image.layout base padding)[i]? = some address)
    (hj : (image.layout base padding)[j]? = some address') :
    address + segment.size + padding ≤ address' := by
  have hlt : i + 1 < (image.layout base padding).length :=
    Nat.lt_of_le_of_lt hij (List.getElem?_eq_some_iff.mp hj).1
  have hnext := List.getElem?_eq_getElem hlt
  have hsum := sum_take_le image.sizes (show i + 1 ≤ j from hij)
  have hgaps : ((i + 1 : Nat) : Int) * padding ≤ j * padding :=
    mul_le_mul_of_nonneg_right (by exact_mod_cast hij) hp
  rw [← layout_succ hs hi hnext, layoutFrom_eq_some hnext, layoutFrom_eq_some hj]
  omega

theorem totalSize_eq (image : Image) (padding : Int) :
    image.totalSize padding = (image.sizes.sum : Nat) + image.sizes.length * padding := by
  rw [totalSize]
  induction image.sizes with
  | nil => simp
  | cons size sizes ih =>
    rw [List.foldr_cons, ih, List.sum_cons, List.length_cons]
    push_cast
    ring

/-- The last segment, too, ends with its padding. -/
theorem layout_le_totalSize {image : Image} {segment : Segment} (hp : 0 ≤ padding)
    (hs : image.segments[id]? = some segment) (ha : (image.layout base padding)[id]? = some address) :
    base ≤ address ∧ address + segment.size + padding ≤ base + image.totalSize padding := by
  have hsize := sizes_getElem? hs
  have hlt : id + 1 ≤ image.sizes.length := (List.getElem?_eq_some_iff.mp hsize).1
  have hsum := sum_take_le image.sizes hlt
  rw [List.take_length, sum_take_succ hsize] at hsum
  have hgaps : ((id + 1 : Nat) : Int) * padding ≤ image.sizes.length * padding :=
    mul_le_mul_of_nonneg_right (by exact_mod_cast hlt) hp
  have hgap : 0 ≤ (id : Int) * padding := mul_nonneg (Int.natCast_nonneg id) hp
  rw [Int.natCast_succ, add_mul, one_mul] at hgaps
  rw [layoutFrom_eq_some ha, totalSize_eq]
  omega

theorem size_eq_sum (image : Image) : image.size = image.sizes.sum := by
  rw [size, sizes, List.sum, List.foldr_map]

/-- Some segment holds the byte at this address. -/
def Covers (image : Image) (base place : Int) : Prop :=
  ∃ (id : Nat) (segment : Segment) (address : Int), image.segments[id]? = some segment ∧
    (image.layout base 0)[id]? = some address ∧ address ≤ place ∧ place < address + segment.size

theorem layoutFrom_covers {place : Int} :
    (∃ (id size : Nat) (address : Int), sizes[id]? = some size ∧
      (layoutFrom 0 base sizes)[id]? = some address ∧ address ≤ place ∧ place < address + size) ↔
    base ≤ place ∧ place < base + sizes.sum := by
  induction sizes generalizing base with
  | nil => simp
  | cons size sizes ih =>
    have hrest := @ih (base + size + 0)
    rw [List.sum_cons]
    constructor
    · rintro ⟨id, found, address, hs, ha, hle, hlt⟩
      cases id with
      | zero =>
        cases hs
        cases ha
        omega
      | succ id =>
        have hin := hrest.mp ⟨id, found, address, hs, ha, hle, hlt⟩
        omega
    · rintro ⟨hle, hlt⟩
      by_cases hfirst : place < base + size
      · exact ⟨0, size, base, rfl, rfl, hle, hfirst⟩
      · obtain ⟨id, found, address, hs, ha, hin⟩ := hrest.mpr (by omega)
        exact ⟨id + 1, found, address, hs, ha, hin⟩

/-- The segments fill the addresses from the base on without a gap. -/
theorem covers_iff {image : Image} {place : Int} :
    image.Covers base place ↔ base ≤ place ∧ place < base + image.size := by
  rw [size_eq_sum, ← layoutFrom_covers]
  constructor
  · rintro ⟨id, segment, address, hs, ha, hin⟩
    exact ⟨id, segment.size, address, by rw [sizes, List.getElem?_map, hs]; rfl, ha, hin⟩
  · rintro ⟨id, size, address, hs, ha, hin⟩
    rw [sizes, List.getElem?_map, Option.map_eq_some_iff] at hs
    obtain ⟨segment, hs, rfl⟩ := hs
    exact ⟨id, segment, address, hs, ha, hin⟩

/-- A buffer with its padding. -/
def padded (padding : Int) (buffer : Bytes) : List UInt8 :=
  buffer.toList ++ List.replicate padding.toNat 0

theorem length_flatMap_padded (padding : Int) (buffers : List Bytes) :
    (buffers.flatMap (padded padding)).length =
      (buffers.map Array.size).sum + buffers.length * padding.toNat := by
  induction buffers with
  | nil => simp
  | cons buffer buffers ih =>
    rw [List.flatMap_cons, List.length_append, ih, padded, List.length_append, List.length_replicate,
      Array.length_toList, List.map_cons, List.sum_cons, List.length_cons]
    ring

theorem Filled.map_size {image : Image} {buffers : List Bytes} (h : image.Filled buffers) :
    buffers.map Array.size = image.sizes := by
  refine List.ext_getElem (by simp [Image.sizes, h.length]) fun id hid hid' ↦ ?_
  simp only [List.getElem_map, Image.sizes]
  rw [List.length_map] at hid
  have hs : id < image.segments.length := h.length ▸ hid
  exact h.size id _ _ (List.getElem?_eq_getElem hs) (List.getElem?_eq_getElem hid)

theorem toList_foldl_join (padding : Int) (buffers : List Bytes) (blob : Bytes) :
    (buffers.foldl (fun blob data ↦ blob ++ data ++ Bytes.zeros padding.toNat) blob).toList =
      blob.toList ++ buffers.flatMap (padded padding) := by
  induction buffers generalizing blob with
  | nil => simp
  | cons buffer buffers ih =>
    rw [List.foldl_cons, ih]
    simp [Bytes.zeros, padded]

theorem join?_eq_some {buffers : List Bytes} {blob : Bytes} (h : join? padding buffers = some blob) :
    (buffers = [] ∨ 0 ≤ padding) ∧ blob.toList = buffers.flatMap (padded padding) := by
  unfold join? at h
  split at h <;> rename_i hp
  · cases h
  · cases h
    refine ⟨or_iff_not_imp_left.mpr fun hne ↦ not_lt.mp fun hlt ↦ hp ⟨hlt, hne⟩, ?_⟩
    exact toList_foldl_join padding buffers #[]

/-- In the blob of all buffers each one lies as far behind the start as its segment does behind the
base. -/
theorem extract_join? {buffers : List Bytes} {buffer blob : Bytes}
    (hsizes : buffers.map Array.size = sizes) (hb : buffers[id]? = some buffer)
    (ha : (layoutFrom padding base sizes)[id]? = some address) (h : join? padding buffers = some blob) :
    blob.extract (address - base).toNat ((address - base).toNat + buffer.size) = buffer := by
  obtain ⟨hlt, hget⟩ := List.getElem?_eq_some_iff.mp hb
  have hsplit : buffers = buffers.take id ++ buffer :: buffers.drop (id + 1) := by
    rw [← hget, List.getElem_cons_drop, List.take_append_drop]
  obtain ⟨hpadding, hblob⟩ := join?_eq_some h
  have hp : 0 ≤ padding := hpadding.resolve_left fun he ↦ by simp [he] at hlt
  have hplace : (address - base).toNat = ((buffers.take id).flatMap (padded padding)).length := by
    have haddress := layoutFrom_eq_some ha
    have hgaps : (((sizes.take id).sum + id * padding.toNat : Nat) : Int) = address - base := by
      rw [Int.natCast_add, Int.natCast_mul, Int.toNat_of_nonneg hp]
      omega
    rw [length_flatMap_padded, List.map_take, hsizes, List.length_take_of_le hlt.le]
    omega
  rw [hsplit] at hblob
  apply Array.ext'
  rw [Array.toList_extract, hblob, List.flatMap_append, hplace, List.extract_eq_take_drop,
    List.drop_left, List.flatMap_cons, Nat.add_sub_cancel_left, padded, List.append_assoc,
    ← Array.length_toList, List.take_left]

/-- Between the buffers there is nothing but zeros. -/
theorem getElem?_flatMap_padded {buffers : List Bytes} {place : Nat} (base : Int) (hp : 0 ≤ padding)
    (hlt : place < (buffers.flatMap (padded padding)).length)
    (hgap : ∀ (id : Nat) (buffer : Bytes) (address : Int), buffers[id]? = some buffer →
      (layoutFrom padding base (buffers.map Array.size))[id]? = some address →
      ¬ (address ≤ base + place ∧ base + place < address + buffer.size)) :
    (buffers.flatMap (padded padding))[place]? = some 0 := by
  induction buffers generalizing base place with
  | nil => simp at hlt
  | cons buffer buffers ih =>
    have hfirst := hgap 0 buffer base rfl rfl
    rw [List.flatMap_cons, List.length_append] at hlt
    have hlength : (padded padding buffer).length = buffer.size + padding.toNat := by simp [padded]
    rw [List.flatMap_cons]
    by_cases hin : place < (padded padding buffer).length
    · rw [List.getElem?_append_left hin, padded,
        List.getElem?_append_right (by rw [Array.length_toList]; omega), List.getElem?_replicate,
        Array.length_toList, if_pos (by omega)]
    · rw [List.getElem?_append_right (not_lt.mp hin)]
      refine ih (base + buffer.size + padding) (by omega) fun id other address ho ha ↦ ?_
      have hother := hgap (id + 1) other address ho ha
      omega

end Image

end Hunks
