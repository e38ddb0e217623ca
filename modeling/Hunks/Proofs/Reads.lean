import Mathlib
import Hunks.Block.Encode
import Hunks.Block.Decode
import Hunks.Proofs.Block.WellFormed
import Hunks.Proofs.Cursor

namespace Hunks

open Hunks.Action (run)

/-- The bytes lie at a position of a window, in front of its end. -/
structure Window.Holds (window : Window) (pos : Nat) (bytes : List UInt8) : Prop where
  stop : (pos : Int) + bytes.length ≤ window.stop
  size : pos + bytes.length ≤ window.data.size
  stored : bytes <+: window.data.toList.drop pos

namespace Window.Holds

variable {window : Window} {pos : Nat} {bytes more : List UInt8}

theorem left (h : window.Holds pos (bytes ++ more)) : window.Holds pos bytes := by
  have hstop := h.stop
  have hsize := h.size
  rw [List.length_append] at hstop hsize
  exact ⟨by omega, by omega, (List.prefix_append bytes more).trans h.stored⟩

theorem right (h : window.Holds pos (bytes ++ more)) :
    window.Holds (pos + bytes.length) more := by
  have hstop := h.stop
  have hsize := h.size
  rw [List.length_append] at hstop hsize
  refine ⟨by omega, by omega, ?_⟩
  obtain ⟨rest, hrest⟩ := h.stored
  refine ⟨rest, ?_⟩
  rw [← List.drop_drop, ← hrest, List.append_assoc, List.drop_left]

theorem ofBytes (bytes : List UInt8) : (Window.ofBytes bytes.toArray none).Holds 0 bytes where
  stop := by simp [Window.ofBytes]
  size := by simp [Window.ofBytes]
  stored := by simp [Window.ofBytes]

end Window.Holds

namespace Bytes

theorem length_padLong (bytes : List UInt8) :
    (padLong bytes).length = (bytes.length + 3) / 4 * 4 := by
  rw [padLong, List.length_append, List.length_replicate]
  omega

theorem padLong_eq {bytes : List UInt8} (h : bytes.length % 4 = 0) : padLong bytes = bytes := by
  rw [padLong, h]
  exact List.append_nil bytes

end Bytes

namespace Text

/-- The bytes of a text, up to the next long word. -/
def padded (text : String) : List UInt8 :=
  Bytes.padLong (text.toList.map fun c ↦ c.toNat.toUInt8)

theorem length_padded (text : String) : (padded text).length = (text.length + 3) / 4 * 4 := by
  rw [padded, Bytes.length_padLong, List.length_map, String.length_toList]

theorem toUInt8_toNat {c : Char} (h : c.toNat < 256) : c.toNat.toUInt8.toNat = c.toNat := by
  simpa [Nat.toUInt8] using h

theorem latin1?_eq {text : String} (h : IsName text) :
    latin1? text = some (text.toList.map fun c ↦ c.toNat.toUInt8) := by
  have hc := h.1
  rw [latin1?]
  generalize text.toList = cs at hc
  induction cs with
  | nil => rfl
  | cons c cs ih =>
    obtain ⟨hc, hcs⟩ := List.forall_mem_cons.mp hc
    rw [List.mapM_cons, ih hcs, if_pos hc.1]
    rfl

theorem paddedName_eq {text : String} (h : IsName text) :
    Encode.paddedName text = .ok (padded text) := by
  rw [Encode.paddedName, Encode.latin1, latin1?_eq h]
  rfl

theorem toUInt8_ne_zero {c : Char} (h : c.toNat < 256 ∧ c.toNat ≠ 0) : c.toNat.toUInt8 ≠ 0 := by
  intro he
  have hb := toUInt8_toNat h.1
  rw [he] at hb
  exact h.2 hb.symm

theorem ofLatin1_map {text : String} (h : ∀ c ∈ text.toList, c.toNat < 256) :
    ofLatin1 (text.toList.map fun c ↦ c.toNat.toUInt8) = text := by
  have hchars : (text.toList.map fun c ↦ c.toNat.toUInt8).map (fun b ↦ Char.ofNat b.toNat) =
      text.toList := by
    rw [List.map_map]
    refine (List.map_congr_left fun c hm ↦ ?_).trans (List.map_id _)
    rw [Function.comp_apply, toUInt8_toNat (h c hm), Char.ofNat_toNat, id]
  rw [ofLatin1, hchars, String.ofList_toList]

/-- A text without NULs is read up to the NULs behind it. -/
theorem ofLatin1_takeWhile {text : String} (h : ∀ c ∈ text.toList, c.toNat < 256 ∧ c.toNat ≠ 0) (n : Nat) :
    ofLatin1 ((text.toList.map (fun c : Char ↦ c.toNat.toUInt8) ++ List.replicate n 0).takeWhile (· ≠ 0)) = text := by
  have hpos : ∀ b ∈ text.toList.map (fun c ↦ c.toNat.toUInt8), decide (b ≠ 0) = true := by
    intro b hb
    obtain ⟨c, hc, rfl⟩ := List.mem_map.mp hb
    exact decide_eq_true (toUInt8_ne_zero (h c hc))
  rw [List.takeWhile_append_of_pos hpos]
  simp only [List.takeWhile_replicate, ne_eq, not_true_eq_false, decide_false, Bool.false_eq_true, ↓reduceIte,
    List.append_nil]
  exact ofLatin1_map fun c hc ↦ (h c hc).1

theorem ofLatin1_padded {text : String} (h : IsName text) :
    ofLatin1 ((padded text).takeWhile (· ≠ 0)) = text :=
  ofLatin1_takeWhile h.1 _

end Text

namespace Decoder

variable {α β : Type} {window : Window} {pos : Nat} {bytes more : List UInt8}

/-- Where the bytes lie, the decoder takes just them and returns `a`. -/
def Reads (x : Decoder α) (window : Window) (pos : Nat) (bytes : List UInt8) (a : α) : Prop :=
  window.Holds pos bytes → run (x window) pos = (.ok a, ((pos + bytes.length : Nat) : Int))

theorem Reads.bind {x : Decoder α} {f : α → Decoder β} {a : α} {b : β}
    (hx : Reads x window pos bytes a) (hf : Reads (f a) window (pos + bytes.length) more b) :
    Reads (x >>= f) window pos (bytes ++ more) b := by
  intro h
  refine bind_eq_ok.mpr ⟨a, _, hx h.left, ?_⟩
  rw [hf h.right, List.length_append, Nat.add_assoc]

theorem reads_pure (a : α) : Reads (pure a) window pos [] a := fun _ ↦ rfl

theorem Reads.map {x : Decoder α} {a : α} (f : α → β) (hx : Reads x window pos bytes a) :
    Reads (f <$> x) window pos bytes (f a) :=
  fun h ↦ map_eq_ok.mpr ⟨a, hx h, rfl⟩

/-- The rest of a decoder may take nothing. -/
theorem Reads.bind_last {x : Decoder α} {f : α → Decoder β} {a : α} {b : β}
    (hx : Reads x window pos bytes a) (hf : Reads (f a) window (pos + bytes.length) [] b) :
    Reads (x >>= f) window pos bytes b := by
  have h := hx.bind hf
  rwa [List.append_nil] at h

/-- The start of a decoder may take nothing. -/
theorem Reads.bind_first {x : Decoder α} {f : α → Decoder β} {a : α} {b : β}
    (hx : Reads x window pos [] a) (hf : Reads (f a) window pos bytes b) :
    Reads (x >>= f) window pos bytes b :=
  hx.bind hf

theorem Reads.bind_pure {x : Decoder α} {a : α} {f : α → β} (hx : Reads x window pos bytes a) :
    Reads (x >>= fun a ↦ Pure.pure (f a)) window pos bytes (f a) :=
  hx.bind_last (f := fun a ↦ Pure.pure (f a)) (reads_pure (f a))

theorem reads_position : Reads position window pos [] (pos : Int) := fun _ ↦ rfl

theorem reads_debug (text : String) : Reads (debug text) window pos [] () := fun _ ↦ rfl

theorem reads_info (text : String) : Reads (info text) window pos [] () := fun _ ↦ rfl

theorem reads_take {size : Int} (hs : (bytes.length : Int) = size) :
    Reads (take size) window pos bytes bytes := by
  intro h
  subst hs
  have hstop : ¬ window.stop < (pos : Int) + bytes.length := Int.not_lt.mpr h.stop
  have hsize := h.size
  have hrange : window.range pos bytes.length = .ok bytes := by
    rw [Window.range, if_neg (by omega)]
    have hp := List.prefix_iff_eq_take.mp h.stored
    simp only [Array.toList_extract, List.extract_eq_take_drop, Int.toNat_natCast]
    rw [show ((pos : Int) + bytes.length).toNat - pos = bytes.length by omega, ← hp]
  simp only [run, take, if_neg hstop, hrange, Int.natCast_add]

theorem reads_number {size : Nat} (hs : bytes.length = size) :
    Reads (number size) window pos bytes (Bytes.toNat bytes) :=
  (reads_take (by omega)).bind_pure

theorem reads_ofInt {size n : Nat} (hn : n < 2 ^ (8 * size)) :
    Reads (number size) window pos (Bytes.ofInt size n) n := by
  have h : Reads (number size) window pos (Bytes.ofInt size n) (Bytes.toNat (Bytes.ofInt size n)) :=
    reads_number (Bytes.length_ofInt size n)
  have hm := Bytes.toNat_ofInt size n
  rw [Int.emod_eq_of_lt (by omega) (by exact_mod_cast hn)] at hm
  rwa [Int.ofNat_inj.mp hm] at h

theorem reads_word {n : Nat} (hn : n < 2 ^ 32) : Reads word window pos (Bytes.long n) n :=
  reads_ofInt hn

theorem reads_short {n : Nat} (hn : n < 2 ^ 16) : Reads short window pos (Bytes.short n) n :=
  reads_ofInt hn

theorem reads_nameOfLongs {longs : Nat} {text : String} (h : Text.IsName text)
    (hl : longs % 2 ^ 24 = (text.length + 3) / 4) :
    Reads (nameOfLongs longs) window pos (Text.padded text) text := by
  have hsize : ((Text.padded text).length : Int) = (longs : Int) % 0x1000000 * 4 := by
    rw [Text.length_padded]
    omega
  have h' : Reads (nameOfLongs longs) window pos (Text.padded text)
      (Text.ofLatin1 ((Text.padded text).takeWhile (· ≠ 0))) :=
    (reads_take hsize).bind_pure
  rwa [Text.ofLatin1_padded h] at h'

theorem reads_name {text : String} (h : Text.IsName text) :
    Reads name window pos (Bytes.long ((Text.padded text).length / 4) ++ Text.padded text) text := by
  have hl := Text.length_padded text
  have hlongs : ((Text.padded text).length / 4 : Int) = ((text.length + 3) / 4 : Nat) := by omega
  rw [hlongs]
  refine (reads_word (h.2.trans (by decide))).bind ?_
  split <;> rename_i hz
  · have hlen : text.toList.length = 0 := by
      rw [String.length_toList]
      omega
    have he : text = "" := String.toList_inj.mp (List.length_eq_zero_iff.mp hlen)
    subst he
    exact reads_pure ""
  · exact reads_nameOfLongs h (Nat.mod_eq_of_lt h.2)

/-- Parts that lie one after the other, each with the element that is read from it. -/
theorem times_of_forall₂ {x : Nat → Decoder α} {as : List α} {parts : List (List UInt8)}
    (hparts : List.Forall₂ (fun a part ↦ ∀ i pos, Reads (x i) window pos part a) as parts) (i : Nat)
    (h : window.Holds pos parts.flatten) :
    Times x window i pos as ((pos + parts.flatten.length : Nat) : Int) := by
  induction hparts generalizing pos i with
  | nil => exact .nil i pos
  | @cons a part as parts hr _ ih =>
    rw [List.flatten_cons] at h
    have ht := ih (i + 1) h.right
    rw [Nat.add_assoc, ← List.length_append] at ht
    exact .cons (hr i pos h.left) ht

theorem reads_times {x : Nat → Decoder α} {as : List α} {parts : List (List UInt8)}
    (hparts : List.Forall₂ (fun a part ↦ ∀ i pos, Reads (x i) window pos part a) as parts) :
    Reads (times as.length x) window pos parts.flatten as :=
  fun h ↦ times_eq_ok.mpr ⟨rfl, times_of_forall₂ hparts 0 h⟩

/-- Elements that a repeated decoder reads one after the other, the state going along, before it
stops at the last bytes. -/
inductive ReadsMany (x : β → Decoder (Option (α × β))) (window : Window) :
    β → Nat → List UInt8 → List α → β → Prop
  | stop {b : β} {pos : Nat} {last : List UInt8} :
      Reads (x b) window pos last none → ReadsMany x window b pos last [] b
  | step {b b' c : β} {pos : Nat} {part rest : List UInt8} {a : α} {as : List α} :
      part ≠ [] → Reads (x b) window pos part (some (a, b')) →
      ReadsMany x window b' (pos + part.length) rest as c →
      ReadsMany x window b pos (part ++ rest) (a :: as) c

theorem ReadsMany.many {x : β → Decoder (Option (α × β))} {b c : β} {as : List α}
    (hm : ReadsMany x window b pos bytes as c) (h : window.Holds pos bytes) :
    as.length ≤ bytes.length ∧ Many x window b pos as c ((pos + bytes.length : Nat) : Int) := by
  induction hm with
  | stop hr => exact ⟨Nat.zero_le _, .stop (hr h)⟩
  | @step _ _ _ _ part _ _ _ hne hr _ ih =>
    obtain ⟨hlen, hm⟩ := ih h.right
    have hpos := List.length_pos_of_ne_nil hne
    rw [Nat.add_assoc, ← List.length_append] at hm
    refine ⟨?_, .step (hr h.left) hm⟩
    rw [List.length_append, List.length_cons]
    omega

theorem reads_manyWith {x : β → Decoder (Option (α × β))} {b c : β} {as : List α}
    (hm : ReadsMany x window b pos bytes as c) :
    Reads (manyWith x b) window pos bytes (as, c) := by
  intro h
  obtain ⟨hlen, hm⟩ := hm.many h
  have hstop := h.stop
  exact manyWith_eq_ok.mpr ⟨by omega, hm⟩

theorem reads_many {x : Decoder (Option α)} {as : List α} {parts : List (List UInt8)}
    {last : List UInt8} (hparts : List.Forall₂ (fun a part ↦ part ≠ [] ∧
      ∀ pos, Reads x window pos part (some a)) as parts)
    (hlast : ∀ pos, Reads x window pos last none) :
    Reads (many x) window pos (parts.flatten ++ last) as := by
  refine Reads.map Prod.fst (reads_manyWith (c := ()) ?_) (a := (as, ()))
  induction hparts generalizing pos with
  | nil => exact .stop ((hlast pos).map _)
  | cons hr _ ih =>
    rw [List.flatten_cons, List.append_assoc]
    exact .step hr.1 (hr.2 pos).bind_pure ih

/-- What is written as `written` reads back as `a`. It takes full units of bytes, at least one. -/
def Undoes (x : Decoder α) (unit : Nat) (written : Except EncodeError (List UInt8)) (a : α) : Prop :=
  ∃ bytes, written = .ok bytes ∧ bytes ≠ [] ∧ unit ∣ bytes.length ∧
    ∀ window pos, Reads x window pos bytes a

section Concat

variable {γ : Type} {f : γ → Except EncodeError (List UInt8)} {items : List γ}

theorem concat_eq {R : γ → List UInt8 → Prop}
    (h : ∀ item ∈ items, ∃ part, f item = .ok part ∧ R item part) :
    ∃ parts, Encode.concat f items = .ok parts.flatten ∧ List.Forall₂ R items parts := by
  suffices hs : ∃ parts, items.mapM f = .ok parts ∧ List.Forall₂ R items parts by
    obtain ⟨parts, hp, hr⟩ := hs
    refine ⟨parts, ?_, hr⟩
    rw [Encode.concat, hp]
    rfl
  induction items with
  | nil => exact ⟨[], rfl, .nil⟩
  | cons item items ih =>
    obtain ⟨hitem, hitems⟩ := List.forall_mem_cons.mp h
    obtain ⟨part, hp, hr⟩ := hitem
    obtain ⟨parts, hps, hrs⟩ := ih hitems
    refine ⟨part :: parts, ?_, .cons hr hrs⟩
    rw [List.mapM_cons, hp, hps]
    rfl

theorem dvd_flatten {unit : Nat} {parts : List (List UInt8)} {R : γ → List UInt8 → Prop}
    (h : List.Forall₂ R items parts) (hd : ∀ item part, R item part → unit ∣ part.length) :
    unit ∣ parts.flatten.length := by
  induction h with
  | nil => exact Nat.dvd_zero unit
  | cons hr _ ih =>
    rw [List.flatten_cons, List.length_append]
    exact Nat.dvd_add (hd _ _ hr) ih

theorem length_flatten_of {size : γ → Nat} {parts : List (List UInt8)} {R : γ → List UInt8 → Prop}
    (h : List.Forall₂ R items parts) (hl : ∀ item part, R item part → part.length = size item) :
    parts.flatten.length = (items.map size).sum := by
  induction h with
  | nil => rfl
  | cons hr _ ih =>
    rw [List.flatten_cons, List.length_append, ih, hl _ _ hr, List.map_cons, List.sum_cons]

end Concat

variable {unit : Nat} {f : α → Except EncodeError (List UInt8)} {as : List α}

theorem concat_many {x : Decoder (Option α)} (h : ∀ a ∈ as, Undoes x unit (f a) (some a)) :
    ∃ bytes, Encode.concat f as = .ok bytes ∧ unit ∣ bytes.length ∧
      ∀ last, (∀ window pos, Reads x window pos last none) →
        ∀ window pos, Reads (many x) window pos (bytes ++ last) as := by
  obtain ⟨parts, hp, hparts⟩ := concat_eq h
  refine ⟨parts.flatten, hp, dvd_flatten hparts fun _ _ hr ↦ hr.2.1, fun last hlast window pos ↦ ?_⟩
  exact reads_many (hparts.imp fun _ _ hr ↦ ⟨hr.1, hr.2.2 window⟩) (hlast window)

theorem concat_times {x : Decoder α} {size : α → Nat}
    (h : ∀ a ∈ as, ∃ part, f a = .ok part ∧ part.length = size a ∧
      ∀ window pos, Reads x window pos part a) :
    ∃ bytes, Encode.concat f as = .ok bytes ∧ bytes.length = (as.map size).sum ∧
      ∀ window pos, Reads (times as.length fun _ ↦ x) window pos bytes as := by
  obtain ⟨parts, hp, hparts⟩ := concat_eq h
  refine ⟨parts.flatten, hp, length_flatten_of hparts fun _ _ hr ↦ hr.1, fun window pos ↦ ?_⟩
  exact reads_times (hparts.imp fun _ _ hr _ ↦ hr.2 window)

end Decoder

end Hunks
