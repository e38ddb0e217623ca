import Mathlib
import Hunks.Debug
import Hunks.Proofs.Bytes.Shows
import Hunks.Proofs.Reads

namespace Hunks

namespace Debug

open Bytes

variable {data : Bytes} {start width n : Nat} {entry : LineEntry} {entries : List LineEntry} {stab : Stab}
  {offset : Nat} {text : String}

theorem numberAt_of_shows (h : data.Shows start (Bytes.ofNat width n)) (hn : n < 2 ^ (8 * width)) :
    numberAt data start width = n := by
  have hbytes := h.extract_eq
  rw [Bytes.length_ofNat] at hbytes
  rw [numberAt, hbytes, Bytes.toNat_ofNat, Bytes.modulus_eq, Nat.mod_eq_of_lt hn]

section Loops

variable {ε δ α β : Type} {as : List α} {bs : List β}

theorem forall₂_range {R : Nat → α → Prop} (h : ∀ i a, as[i]? = some a → R i a) :
    List.Forall₂ R (List.range as.length) as := by
  apply List.forall₂_iff_get.mpr
  simp only [List.length_range, List.get_eq_getElem, List.getElem_range, true_and]
  intro i hi hi'
  exact h i _ (List.getElem?_eq_getElem hi')

theorem mapM_of_forall₂ {f : α → Except ε β} (h : List.Forall₂ (fun a b ↦ f a = .ok b) as bs) :
    as.mapM f = .ok bs := by
  induction h with
  | nil => rfl
  | cons ha _ ih =>
    rw [List.mapM_cons, ha, ih]
    rfl

theorem mapM_mapError {f : α → Except δ β} {g : α → Except ε β} {e : ε → δ}
    (h : ∀ a ∈ as, f a = (g a).mapError e) : as.mapM f = (as.mapM g).mapError e := by
  induction as with
  | nil => rfl
  | cons a as ih =>
    obtain ⟨ha, has⟩ := List.forall_mem_cons.mp h
    rw [List.mapM_cons, List.mapM_cons, ha, ih has]
    cases g a with
    | error _ => rfl
    | ok b => cases as.mapM g <;> rfl

end Loops

section Lines

structure LineEntry.Fits (entry : LineEntry) : Prop where
  line : entry.line < 0x1000000
  offset : entry.offset < 2 ^ 32
  flags : entry.flags < 256

def LineEntry.encode (entry : LineEntry) : List UInt8 :=
  Bytes.ofNat 4 (entry.flags * 0x1000000 + entry.line) ++ Bytes.ofNat 4 entry.offset

theorem LineEntry.length_encode (entry : LineEntry) : entry.encode.length = 8 := by
  simp [encode]

/-- The name of a file in this many long words, the rest of which are NULs. -/
def encodeFile (longs : Nat) (file : String) : List UInt8 :=
  file.toList.map (fun c : Char ↦ c.toNat.toUInt8) ++ List.replicate (4 * longs - file.length) 0

theorem length_encodeFile {longs : Nat} {file : String} (h : file.length ≤ 4 * longs) :
    (encodeFile longs file).length = 4 * longs := by
  simp only [encodeFile, List.length_append, List.length_map, String.length_toList, List.length_replicate]
  omega

/-- A table of lines: a section offset, the tag, the file name behind its count of long words, and the
lines. -/
def encodeLines (base longs : Nat) (file : String) (entries : List LineEntry) : List UInt8 :=
  Bytes.ofNat 4 base ++ (lineTag ++ (Bytes.ofNat 4 longs ++ (encodeFile longs file ++
    entries.flatMap LineEntry.encode)))

theorem lineEntry_of_shows (h : data.Shows start entry.encode) (hfits : entry.Fits) :
    lineEntry data start = entry := by
  have hline := hfits.line
  have hflags := hfits.flags
  have hfirst : numberAt data start 4 = entry.flags * 0x1000000 + entry.line :=
    numberAt_of_shows h.left (by omega)
  have hright := h.right
  rw [Bytes.length_ofNat] at hright
  have hsecond := numberAt_of_shows hright hfits.offset
  have hmod : (entry.flags * 0x1000000 + entry.line) % 0x1000000 = entry.line := by omega
  have hdiv : (entry.flags * 0x1000000 + entry.line) / 0x1000000 = entry.flags := by omega
  simp only [lineEntry, hfirst, hsecond, hmod, hdiv]

theorem lineEntries_of_shows (h : data.Shows start (entries.flatMap LineEntry.encode))
    (hsize : data.size = start + 8 * entries.length) (hfits : ∀ entry ∈ entries, entry.Fits) :
    lineEntries data start = entries := by
  have hcount : (data.size - start) / 8 = entries.length := by omega
  have hall : List.Forall₂ (fun i entry ↦ lineEntry data (start + 8 * i) = entry)
      (List.range entries.length) entries := by
    apply forall₂_range
    intro i entry hentry
    exact lineEntry_of_shows (h.part LineEntry.length_encode hentry) (hfits entry (List.mem_of_getElem? hentry))
  rwa [lineEntries, hcount, ← List.forall₂_eq_eq_eq, List.forall₂_map_left_iff]

theorem decode_encodeLines {base longs : Nat} {file : String} (hbase : base < 2 ^ 32) (hlongs : longs < 2 ^ 32)
    (hfile : ∀ c ∈ file.toList, c.toNat < 256 ∧ c.toNat ≠ 0) (hlength : file.length ≤ 4 * longs)
    (hfits : ∀ entry ∈ entries, entry.Fits) :
    decode (encodeLines base longs file entries).toArray = .lines base file entries := by
  have hshows := shows_toArray (encodeLines base longs file entries)
  have hname := length_encodeFile hlength
  have hsize : (encodeLines base longs file entries).toArray.size = 12 + 4 * longs + 8 * entries.length := by
    simp only [encodeLines, List.size_toArray, List.length_append, Bytes.length_ofNat, hname,
      length_flatMap_parts LineEntry.length_encode]
    simp [lineTag]
    omega
  generalize (encodeLines base longs file entries).toArray = data at hshows hsize ⊢
  have htag := hshows.right
  have hcount := htag.right
  have hfirst := hcount.right
  have hentries := hfirst.right
  simp only [Bytes.length_ofNat, lineTag, List.length_cons, List.length_nil, hname, Nat.zero_add,
    Nat.reduceAdd] at htag hcount hfirst hentries
  have hnumber : numberAt data 0 4 = base := numberAt_of_shows hshows.left hbase
  have hnumber' : numberAt data 8 4 = longs := numberAt_of_shows hcount.left hlongs
  have hlineTag : (data.extract 4 8).toList = lineTag := htag.left.extract_eq
  have htext := hfirst.left.extract_eq
  rw [hname] at htext
  rw [decode, if_neg (by omega), hnumber]
  dsimp only
  rw [if_pos hlineTag, decodeLines, hnumber']
  dsimp only
  rw [htext, encodeFile, Text.ofLatin1_takeWhile hfile, lineEntries_of_shows hentries hsize hfits]

end Lines

section Stabs

structure Stab.Fits (stab : Stab) : Prop where
  type : stab.type < 256
  other : stab.other < 256
  desc : stab.desc < 2 ^ 16
  value : stab.value < 2 ^ 32

/-- A stab whose text lies at an offset of the strings. -/
def Stab.encode (offset : Nat) (stab : Stab) : List UInt8 :=
  Bytes.ofNat 4 offset ++ (Bytes.ofNat 1 stab.type ++ (Bytes.ofNat 1 stab.other ++
    (Bytes.ofNat 2 stab.desc ++ Bytes.ofNat 4 stab.value)))

theorem Stab.length_encode (offset : Nat) (stab : Stab) : (stab.encode offset).length = stabSize := by
  simp [encode, stabSize]

/-- A text begins at an offset of the strings and ends at a NUL. -/
def TextAt (strings : List UInt8) (offset : Nat) (text : String) : Prop :=
  ∃ bytes rest, strings.drop offset = bytes ++ 0 :: rest ∧ (0 : UInt8) ∉ bytes ∧ text = Text.ofLatin1 bytes

theorem textAt?_eq (h : TextAt (data.toList.drop start) offset text) :
    data.textAt? (start + offset) = some text := by
  obtain ⟨bytes, rest, hdrop, hbytes, rfl⟩ := h
  rw [List.drop_drop] at hdrop
  have hextract : data.extract (start + offset) data.size = (bytes ++ 0 :: rest).toArray := by
    apply Array.toList_inj.mp
    rw [Array.toList_extract, List.extract, ← hdrop, List.take_of_length_le]
    simp
  have hfind : (bytes ++ 0 :: rest).findIdx? (fun b ↦ decide (b = 0)) = some bytes.length := by
    have hnone : bytes.findIdx? (fun b ↦ decide (b = 0)) = none := by
      apply List.findIdx?_eq_none_iff.mpr
      intro b hb
      apply decide_eq_false
      intro hzero
      exact hbytes (hzero ▸ hb)
    simp [List.findIdx?_append, hnone, List.findIdx?_cons]
  rw [textAt?, hextract, List.findIdx?_toArray, hfind]
  simp

theorem decodeStab_of_shows {strings i : Nat} (h : data.Shows (stabSize * (i + 1)) (stab.encode offset))
    (hoffset : offset < 2 ^ 32) (hfits : stab.Fits)
    (htext : TextAt (data.toList.drop strings) offset stab.text) : decodeStab data strings i = .ok stab := by
  have htype := h.right
  have hother := htype.right
  have hdesc := hother.right
  have hvalue := hdesc.right
  simp only [Bytes.length_ofNat, Nat.add_assoc, Nat.reduceAdd] at htype hother hdesc hvalue
  simp only [decodeStab, numberAt_of_shows h.left hoffset, textAt?_eq htext,
    numberAt_of_shows htype.left hfits.type, numberAt_of_shows hother.left hfits.other,
    numberAt_of_shows hdesc.left hfits.desc, numberAt_of_shows hvalue hfits.value]

/-- A table of stabs, each with the offset of its text, and what follows it. -/
def encodeStabs (first : Nat × Stab) (stabs : List (Nat × Stab)) (rest : List UInt8) : List UInt8 :=
  first.2.encode first.1 ++ (stabs.flatMap (fun stab ↦ stab.2.encode stab.1) ++ rest)

/-- The first byte of a range is a number of its own. -/
theorem numberAt_of_extract {stop : Nat} {b : UInt8} {bytes : List UInt8}
    (h : (data.extract start stop).toList = b :: bytes) : numberAt data start 1 = b.toNat := by
  rw [Array.toList_extract, List.extract] at h
  have hbyte : (data.extract start (start + 1)).toList = [b] := by
    rw [Array.toList_extract, List.extract, Nat.add_sub_cancel_left]
    cases hdrop : data.toList.drop start with
    | nil => simp [hdrop] at h
    | cons first rest =>
      rw [hdrop] at h
      cases hstop : stop - start with
      | zero => simp [hstop] at h
      | succ n =>
        rw [hstop, List.take_succ_cons, List.cons.injEq] at h
        rw [h.1]
        rfl
  rw [numberAt, hbyte, Bytes.toNat_cons]
  simp [Bytes.modulus]

theorem extract_ne_of_zero {stop : Nat} {b : UInt8} {bytes : List UInt8} (hzero : numberAt data start 1 = 0)
    (hb : b ≠ 0) : (data.extract start stop).toList ≠ b :: bytes := by
  intro h
  have hbyte := numberAt_of_extract h
  rw [hzero] at hbyte
  exact hb (UInt8.toNat_inj.mp hbyte.symm)

/-- The texts are looked for one stab behind the table. -/
theorem decodeStabs_of_shows {stabs : List (Nat × Stab)} (hzero : numberAt data 4 1 = 0)
    (hnumber : numberAt data 6 2 = stabSize * (stabs.length + 1)) (hsize : stabSize * (stabs.length + 1) ≤ data.size)
    (hentries : data.Shows stabSize (stabs.flatMap fun stab ↦ stab.2.encode stab.1))
    (hstabs : ∀ stab ∈ stabs, stab.1 < 2 ^ 32 ∧ stab.2.Fits ∧
      TextAt (data.toList.drop (stabSize * (stabs.length + 1 + 1))) stab.1 stab.2.text) :
    decodeStabs data = .ok (stabs.map Prod.snd) := by
  have hquotient : stabSize * (stabs.length + 1) / stabSize = stabs.length + 1 :=
    Nat.mul_div_cancel_left _ (by decide)
  have hcount : stabCount data = .ok (stabs.length + 1) := by
    simp only [stabCount, hzero, hnumber, hquotient, ne_eq, not_true_eq_false, if_false]
    rw [if_neg (by omega)]
  have hall : (List.range (stabs.map Prod.snd).length).mapM
      (decodeStab data (stabSize * (stabs.length + 1 + 1))) = .ok (stabs.map Prod.snd) := by
    apply mapM_of_forall₂
    apply forall₂_range
    intro i stab hstab
    rw [List.getElem?_map, Option.map_eq_some_iff] at hstab
    obtain ⟨pair, hpair, rfl⟩ := hstab
    obtain ⟨hoffset, hfits, htext⟩ := hstabs pair (List.mem_of_getElem? hpair)
    have hpart := hentries.part (fun stab ↦ stab.2.length_encode stab.1) hpair
    rw [Nat.add_comm, ← Nat.mul_succ] at hpart
    exact decodeStab_of_shows hpart hoffset hfits htext
  rw [List.length_map] at hall
  rw [decodeStabs, hcount]
  exact hall

theorem decode_encodeStabs {first : Nat × Stab} {stabs : List (Nat × Stab)} {rest : List UInt8}
    (hfirst : first.2.Fits) (htype : first.2.type = 0) (hdesc : first.2.desc = stabSize * (stabs.length + 1))
    (hstabs : ∀ stab ∈ stabs, stab.1 < 2 ^ 32 ∧ stab.2.Fits ∧
      TextAt (rest.drop stabSize) stab.1 stab.2.text) :
    decode (encodeStabs first stabs rest).toArray = .stabs 0 (stabs.map Prod.snd) := by
  have hshows := shows_toArray (encodeStabs first stabs rest)
  have htable : (stabs.flatMap fun stab ↦ stab.2.encode stab.1).length = stabSize * stabs.length :=
    length_flatMap_parts (fun stab ↦ stab.2.length_encode stab.1) stabs
  have hsize : stabSize * (stabs.length + 1) ≤ (encodeStabs first stabs rest).toArray.size := by
    simp only [encodeStabs, List.size_toArray, List.length_append, first.2.length_encode, htable]
    rw [Nat.mul_succ]
    omega
  have hstrings : (encodeStabs first stabs rest).toArray.toList.drop (stabSize * (stabs.length + 1 + 1)) =
      rest.drop stabSize := by
    have hlength : (first.2.encode first.1 ++ stabs.flatMap fun stab ↦ stab.2.encode stab.1).length =
        stabSize * (stabs.length + 1) := by
      rw [List.length_append, first.2.length_encode, htable, Nat.mul_succ, Nat.add_comm]
    rw [encodeStabs, ← List.append_assoc, Nat.mul_succ, ← List.drop_drop, ← hlength, List.drop_left]
  rw [← hstrings] at hstabs
  generalize (encodeStabs first stabs rest).toArray = data at hshows hsize hstabs ⊢
  have hhead := hshows.left.right
  have hcount := hhead.right.right
  have hentries := hshows.right.left
  simp only [Bytes.length_ofNat, first.2.length_encode, Nat.zero_add, Nat.reduceAdd] at hhead hcount hentries
  have hzero : numberAt data 4 1 = 0 := by
    rw [← htype]
    exact numberAt_of_shows hhead.left hfirst.type
  have hnumber : numberAt data 6 2 = stabSize * (stabs.length + 1) := by
    rw [← hdesc]
    exact numberAt_of_shows hcount.left hfirst.desc
  have hdecoded := decodeStabs_of_shows hzero hnumber hsize hentries hstabs
  have hsmall : ¬ data.size < 12 := by
    rw [stabSize] at hsize
    omega
  have hline : (data.extract 4 8).toList ≠ lineTag := extract_ne_of_zero hzero (by decide)
  have hheadTag : (data.extract 4 8).toList ≠ headTag := extract_ne_of_zero hzero (by decide)
  simp only [decode, hsmall, hline, hheadTag, hdecoded, if_false, false_and]

end Stabs

section Checked

/-- Why decoding could end with nothing: bytes beyond the data would be read, or the data is no stab table. -/
inductive Fault where
  | beyond (start size : Nat)
  | stabs (e : StabError)
  deriving DecidableEq, Repr

/-- A number that must lie within the data. -/
def number (data : Bytes) (start size : Nat) : Except Fault Nat :=
  match data.at? start size with
  | some bytes => .ok (Bytes.toNat bytes)
  | none => .error (.beyond start size)

def checkLine (data : Bytes) (start : Nat) : Except Fault LineEntry := do
  let line ← number data start 4
  let offset ← number data (start + 4) 4
  return ⟨line % 0x1000000, offset, line / 0x1000000⟩

def checkLines (data : Bytes) : Except Fault (String × List LineEntry) := do
  let start := 12 + 4 * (← number data 8 4)
  let name := (data.extract 12 start).toList.takeWhile (· ≠ 0)
  let entries ← (List.range ((data.size - start) / 8)).mapM fun i ↦ checkLine data (start + 8 * i)
  return (Text.ofLatin1 name, entries)

def checkStab (data : Bytes) (strings i : Nat) : Except Fault Stab := do
  let start := stabSize * (i + 1)
  let offset ← number data start 4
  let type ← number data (start + 4) 1
  let other ← number data (start + 5) 1
  let desc ← number data (start + 6) 2
  let value ← number data (start + 8) 4
  match data.textAt? (strings + offset) with
  | some text => return ⟨type, text, other, desc, value⟩
  | none => throw (.stabs .unterminated)

def checkStabs (data : Bytes) : Except Fault (List Stab) := do
  if (← number data 4 1) ≠ 0 then
    throw (.stabs .firstStab)
  let count := (← number data 6 2) / stabSize
  if count = 0 ∨ data.size < stabSize * count then
    throw (.stabs .truncated)
  (List.range (count - 1)).mapM (checkStab data (stabSize * (count + 1)))

/-- Decodes data and sees to it that nothing is read beyond it. Only what is wrong with a stab table makes
the data one of another format. -/
def check (data : Bytes) : Except Fault Info := do
  if data.size < 12 then
    return .other "" 0 data
  let base ← number data 0 4
  let tag := (data.extract 4 8).toList
  if tag = lineTag then
    let (name, entries) ← checkLines data
    return .lines base name entries
  if tag = headTag ∧ (data.extract 8 16).toList = headSignature then
    return .other "HEAD" base (data.extract 16 data.size)
  match checkStabs data with
  | .ok stabs => return .stabs 0 stabs
  | .error (.stabs _) => return .other (Text.ofLatin1 tag) base (data.extract 8 data.size)
  | .error e => throw e

theorem number_eq {size : Nat} (h : start + size ≤ data.size) :
    number data start size = pure (numberAt data start size) := by
  rw [number, Bytes.at?, if_pos h]
  rfl

theorem checkLine_eq (h : start + 8 ≤ data.size) : checkLine data start = pure (lineEntry data start) := by
  rw [checkLine, number_eq (by omega), number_eq (by omega)]
  rfl

theorem checkLines_eq (h : 12 ≤ data.size) : checkLines data = pure (decodeLines data) := by
  have hentries : ∀ start, ((List.range ((data.size - start) / 8)).mapM fun i ↦ checkLine data (start + 8 * i)) =
      pure (lineEntries data start) := by
    intro start
    rw [lineEntries]
    apply mapM_of_forall₂
    rw [List.forall₂_map_right_iff, List.forall₂_same]
    intro i hi
    rw [List.mem_range] at hi
    exact checkLine_eq (by omega)
  have hcount : number data 8 4 = pure (numberAt data 8 4) := number_eq (by omega)
  simp only [checkLines, hcount, pure_bind, hentries]
  rfl

theorem checkStab_eq {strings i : Nat} (h : stabSize * (i + 1) + 12 ≤ data.size) :
    checkStab data strings i = (decodeStab data strings i).mapError .stabs := by
  rw [checkStab, number_eq (by omega), number_eq (by omega), number_eq (by omega), number_eq (by omega),
    number_eq (by omega), decodeStab]
  simp only [pure_bind]
  cases data.textAt? (strings + numberAt data (stabSize * (i + 1)) 4) <;> rfl

theorem checkStabs_eq (h : 12 ≤ data.size) : checkStabs data = (decodeStabs data).mapError .stabs := by
  rw [checkStabs, number_eq (by omega), number_eq (by omega), decodeStabs, stabCount]
  simp only [pure_bind]
  by_cases htype : numberAt data 4 1 = 0
  · simp only [htype, ne_eq, not_true_eq_false, if_false]
    by_cases hcount : numberAt data 6 2 / stabSize = 0 ∨ data.size < stabSize * (numberAt data 6 2 / stabSize)
    · rw [if_pos hcount, if_pos hcount]
      rfl
    · rw [if_neg hcount, if_neg hcount]
      apply mapM_mapError
      intro i hi
      rw [List.mem_range] at hi
      apply checkStab_eq
      simp only [stabSize] at hcount hi ⊢
      omega
  · simp only [htype, ne_eq, not_false_eq_true, if_true]
    rfl

/-- Nothing is read beyond the data, and what is wrong with a stab table does not stop the decoding. -/
theorem check_eq (data : Bytes) : check data = .ok (decode data) := by
  rw [check, decode]
  by_cases hsmall : data.size < 12
  · rw [if_pos hsmall, if_pos hsmall]
    rfl
  · rw [if_neg hsmall, if_neg hsmall, number_eq (by omega), checkLines_eq (by omega), checkStabs_eq (by omega)]
    simp only [pure_bind]
    split
    · rfl
    · split
      · rfl
      · cases decodeStabs data <;> rfl

end Checked

/-- Tables of lines and of stabs are decoded to what they were made of, whatever the texts of the stabs
share, and data in any format is decoded without reading beyond it. -/
theorem decode_tables :
    (∀ base longs file entries, base < 2 ^ 32 → longs < 2 ^ 32 →
      (∀ c ∈ file.toList, c.toNat < 256 ∧ c.toNat ≠ 0) → file.length ≤ 4 * longs →
      (∀ entry ∈ entries, LineEntry.Fits entry) →
      decode (encodeLines base longs file entries).toArray = .lines base file entries) ∧
    (∀ (first : Nat × Stab) (stabs : List (Nat × Stab)) (rest : List UInt8), first.2.Fits →
      first.2.type = 0 → first.2.desc = stabSize * (stabs.length + 1) →
      (∀ stab ∈ stabs, stab.1 < 2 ^ 32 ∧ stab.2.Fits ∧ TextAt (rest.drop stabSize) stab.1 stab.2.text) →
      decode (encodeStabs first stabs rest).toArray = .stabs 0 (stabs.map Prod.snd)) ∧
    ∀ data, check data = .ok (decode data) := by
  refine ⟨?_, ?_, check_eq⟩
  · intro base longs file entries hbase hlongs hfile hlength hfits
    exact decode_encodeLines hbase hlongs hfile hlength hfits
  · intro first stabs rest hfirst htype hdesc hstabs
    exact decode_encodeStabs hfirst htype hdesc hstabs

/-- The second text is the end of the first one. -/
def sampleStabs : List (Nat × Stab) :=
  [(1, ⟨0x24, "main", 0, 3, 0x100⟩), (3, ⟨0x44, "in", 255, 65535, 4⟩)]

theorem decode_tables_sample :
    decode (encodeLines 0x20 2 "a.c" [⟨5, 0x10, 1⟩, ⟨0xffffff, 0x14, 255⟩]).toArray =
        .lines 0x20 "a.c" [⟨5, 0x10, 1⟩, ⟨0xffffff, 0x14, 255⟩] ∧
      decode (encodeStabs (0, ⟨0, "", 0, 36, 6⟩) sampleStabs
          (List.replicate 12 7 ++ [0, 0x6d, 0x61, 0x69, 0x6e, 0])).toArray =
        .stabs 0 [⟨0x24, "main", 0, 3, 0x100⟩, ⟨0x44, "in", 255, 65535, 4⟩] ∧
      check #[0, 0, 0, 4, 0x4f, 0x44, 0x44, 0x53, 1, 2, 3, 4] = .ok (.other "ODDS" 4 #[1, 2, 3, 4]) := by
  obtain ⟨hlines, hstabs, hcheck⟩ := decode_tables
  refine ⟨hlines _ _ _ _ (by decide) (by decide) (by simp) (by decide) ?_,
    hstabs _ _ _ ⟨by decide, by decide, by decide, by decide⟩ rfl rfl ?_, ?_⟩
  · simp only [List.mem_cons, List.not_mem_nil, or_false, forall_eq_or_imp, forall_eq]
    exact ⟨⟨by decide, by decide, by decide⟩, ⟨by decide, by decide, by decide⟩⟩
  · simp only [sampleStabs, List.mem_cons, List.not_mem_nil, or_false, forall_eq_or_imp, forall_eq]
    refine ⟨⟨by decide, ⟨by decide, by decide, by decide, by decide⟩, [0x6d, 0x61, 0x69, 0x6e], [], ?_⟩,
      ⟨by decide, ⟨by decide, by decide, by decide, by decide⟩, [0x69, 0x6e], [], ?_⟩⟩
    · exact ⟨rfl, by decide, by decide⟩
    · exact ⟨rfl, by decide, by decide⟩
  · rw [hcheck]
    decide

end Debug

end Hunks
