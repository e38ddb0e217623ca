import Mathlib
import Hunks.Proofs.Bytes
import Hunks.Proofs.Resident.Announced

namespace Hunks

open Hunks.Action (run Rounds)

namespace Bytes

variable {P : Int → UInt8 → Prop} {address : Int} {xs ys : List UInt8}

/-- Bytes one behind the other of which each has to do with its address. -/
def EachAt (P : Int → UInt8 → Prop) (address : Int) (bytes : List UInt8) : Prop :=
  ∀ (i : Nat) (b : UInt8), bytes[i]? = some b → P (address + i) b

theorem EachAt.left (h : EachAt P address (xs ++ ys)) : EachAt P address xs := by
  intro i b hb
  refine h i b ?_
  rwa [List.getElem?_append_left (List.getElem?_eq_some_iff.mp hb).1]

theorem EachAt.right (h : EachAt P address (xs ++ ys)) : EachAt P (address + xs.length) ys := by
  intro i b hb
  have hb' : (xs ++ ys)[xs.length + i]? = some b := by
    rw [List.getElem?_append_right (Nat.le_add_right ..), Nat.add_sub_cancel_left, hb]
  have hP := h (xs.length + i) b hb'
  rwa [Nat.cast_add, ← add_assoc] at hP

theorem EachAt.first {b : UInt8} (h : EachAt P address (b :: xs)) : P address b := by
  have hP := h 0 b rfl
  rwa [Nat.cast_zero, add_zero] at hP

end Bytes

namespace InitData

/-- The bytes of the offset that a destination takes. -/
def Destination.offsetBytes : Destination → Nat
  | next | repeated => 0
  | offset8 => 1
  | offset24 => 3

/-- What a command asks for, wherever it stands. -/
structure Order where
  destination : Destination
  width : Nat
  count : Nat
  offset : Option Nat
  values : List Nat
  deriving DecidableEq, Repr

namespace Order

/-- A repeated value is stored once. -/
def stored (order : Order) : Nat :=
  if order.destination = .repeated then 1 else order.count

/-- How a command byte gives the width of the values. -/
def widthCode (order : Order) : Nat :=
  match order.width with
  | 4 => 0
  | 2 => 1
  | _ => 2

def commandByte (order : Order) : Nat :=
  order.destination.number * 64 + order.widthCode * 16 + (order.count - 1)

/-- An order that a command can give. The byte of a single long value that goes to the next place is zero,
which ends the commands. -/
structure Encodable (order : Order) : Prop where
  width : order.width = 4 ∨ order.width = 2 ∨ order.width = 1
  count : 1 ≤ order.count ∧ order.count ≤ 16
  plain : order.destination.offsetBytes = 0 → order.offset = none
  offset : order.destination.offsetBytes ≠ 0 →
    ∃ n, order.offset = some n ∧ n < 2 ^ (8 * order.destination.offsetBytes)
  stored : order.values.length = order.stored
  fits : ∀ value ∈ order.values, value < 2 ^ (8 * order.width)
  marked : ¬ (order.destination = .next ∧ order.width = 4 ∧ order.count = 1)

/-- A byte of any value at an odd address. -/
def padding (pad : Int → UInt8) (address : Int) : List UInt8 :=
  if address % 2 = 1 then [pad address] else []

def head (order : Order) : List UInt8 :=
  order.commandByte.toUInt8 ::
    Bytes.ofNat order.destination.offsetBytes (order.offset.getD 0)

/-- The bytes in front of the values; those of more than one byte start at an even address. -/
def front (pad : Int → UInt8) (address : Int) (order : Order) : List UInt8 :=
  order.head ++ if 1 < order.width then padding pad (address + order.head.length) else []

def body (pad : Int → UInt8) (address : Int) (order : Order) : List UInt8 :=
  order.front pad address ++ order.values.flatMap (Bytes.ofNat order.width)

/-- The bytes of a command at an address, up to an even one. -/
def encode (pad : Int → UInt8) (address : Int) (order : Order) : List UInt8 :=
  order.body pad address ++ padding pad (address + (order.body pad address).length)

/-- The bytes of commands one behind the other, and the zero that ends them. -/
def encodeAll (pad : Int → UInt8) (address : Int) : List Order → List UInt8
  | [] => [0]
  | order :: orders =>
    order.encode pad address ++ encodeAll pad (address + (order.encode pad address).length) orders

def placed (pad : Int → UInt8) (address : Int) (order : Order) : Command where
  address
  destination := order.destination
  width := order.width
  count := order.count
  offset := order.offset
  values := order.values
  length := (order.encode pad address).length

def placeAll (pad : Int → UInt8) (address : Int) : List Order → List Command
  | [] => []
  | order :: orders =>
    order.placed pad address :: placeAll pad (address + (order.encode pad address).length) orders

end Order

def Command.order (command : Command) : Order where
  destination := command.destination
  width := command.width
  count := command.count
  offset := command.offset
  values := command.values

variable {σ ε : Type} {readByte : Int → Action σ ε Nat} {s : σ} {address : Int} {pad : Int → UInt8}

/-- A reader of bytes finds these from an address on and changes nothing. -/
abbrev Gives (readByte : Int → Action σ ε Nat) (s : σ) : Int → List UInt8 → Prop :=
  Bytes.EachAt fun address b ↦ run (readByte address) s = (.ok b.toNat, s)

theorem Gives.run_readNumber {bytes : List UInt8} (h : Gives readByte s address bytes) :
    run (readNumber readByte address bytes.length) s = (.ok (Bytes.toNat bytes), s) := by
  refine Action.run_foldl_range (fun i b n hb ↦ ?_) 0
  rw [Action.run_bind_ok (h i b hb)]
  rfl

theorem Gives.run_readNumber_ofNat {width n : Nat} (h : Gives readByte s address (Bytes.ofNat width n))
    (hn : n < 2 ^ (8 * width)) : run (readNumber readByte address width) s = (.ok n, s) := by
  have hread := h.run_readNumber
  rwa [Bytes.length_ofNat, Bytes.toNat_ofNat, Bytes.modulus_eq, Nat.mod_eq_of_lt hn] at hread

theorem length_values (width : Nat) (values : List Nat) :
    (values.flatMap (Bytes.ofNat width)).length = values.length * width := by
  induction values with
  | nil => simp
  | cons value values ih =>
    rw [List.flatMap_cons, List.length_append, Bytes.length_ofNat, ih, List.length_cons, Nat.succ_mul,
      Nat.add_comm]

/-- The values of a command are read one behind the other. -/
theorem Gives.value {width i value : Nat} {values : List Nat}
    (h : Gives readByte s address (values.flatMap (Bytes.ofNat width))) (hi : values[i]? = some value) :
    Gives readByte s (address + i * width) (Bytes.ofNat width value) := by
  obtain ⟨hlt, rfl⟩ := List.getElem?_eq_some_iff.mp hi
  rw [← List.take_append_drop i values, List.drop_eq_getElem_cons hlt, List.flatMap_append,
    List.flatMap_cons] at h
  have hplace := h.right.left
  rwa [length_values, List.length_take, Nat.min_eq_left hlt.le, Nat.cast_mul] at hplace

theorem Gives.run_readValues {width : Nat} {values : List Nat}
    (h : Gives readByte s address (values.flatMap (Bytes.ofNat width)))
    (hfits : ∀ value ∈ values, value < 2 ^ (8 * width)) :
    run (Action.foldl (fun (found : Array Nat) (i : Nat) ↦ do
      return found.push (← readNumber readByte (address + i * width) width)) #[]
        (List.range values.length)) s = (.ok values.toArray, s) := by
  have hround : ∀ (i value : Nat) (found : Array Nat), values[i]? = some value →
      run (do return found.push (← readNumber readByte (address + i * width) width)) s =
        (.ok (found.push value), s) := by
    intro i value found hi
    rw [Action.run_bind_ok ((h.value hi).run_readNumber_ofNat (hfits value (List.mem_of_getElem? hi)))]
    rfl
  rw [Action.run_foldl_range hround, List.foldl_push_eq_append]
  simp

theorem Gives.run_readOffset {order : Order} (ho : order.Encodable)
    (h : Gives readByte s address
      (Bytes.ofNat order.destination.offsetBytes (order.offset.getD 0))) :
    run (readOffset readByte address order.destination) s =
      (.ok (order.offset, address + order.destination.offsetBytes), s) := by
  have hplain := ho.plain
  have hoffset := ho.offset
  generalize order.destination = destination at h hplain hoffset
  cases destination with
  | next =>
    rw [hplain rfl]
    simp [readOffset, Destination.offsetBytes]
  | repeated =>
    rw [hplain rfl]
    simp [readOffset, Destination.offsetBytes]
  | offset8 =>
    obtain ⟨n, hn, hlt⟩ := hoffset (by decide)
    rw [hn, Option.getD_some] at h
    rw [hn, readOffset]
    exact Action.run_bind_ok (h.run_readNumber_ofNat hlt)
  | offset24 =>
    obtain ⟨n, hn, hlt⟩ := hoffset (by decide)
    rw [hn, Option.getD_some] at h
    rw [hn, readOffset]
    exact Action.run_bind_ok (h.run_readNumber_ofNat hlt)

theorem Destination.ofNumber_number (destination : Destination) :
    ofNumber destination.number = destination := by
  cases destination <;> rfl

theorem Destination.number_le (destination : Destination) : destination.number ≤ 3 := by
  cases destination <;> decide

namespace Order

variable {order : Order}

theorem Encodable.widthCode (ho : order.Encodable) :
    order.widthCode ≤ 2 ∧ width? order.widthCode = some order.width ∧
      (order.widthCode = 0 → order.width = 4) := by
  rw [Order.widthCode]
  rcases ho.width with h | h | h <;> rw [h] <;> decide

/-- A command byte holds its three parts, and is not the one that ends the commands. -/
theorem Encodable.commandByte (ho : order.Encodable) :
    order.commandByte < 256 ∧ order.commandByte ≠ 0 ∧
      Destination.ofNumber (order.commandByte / 64 % 4) = order.destination ∧
      width? (order.commandByte / 16 % 4) = some order.width ∧
      order.commandByte % 16 + 1 = order.count := by
  obtain ⟨hcode, hwidth, hlong⟩ := ho.widthCode
  obtain ⟨hpos, hle⟩ := ho.count
  have hnumber := order.destination.number_le
  rw [Order.commandByte]
  refine ⟨by omega, fun hzero ↦ ho.marked ⟨?_, hlong (by omega), by omega⟩, ?_, ?_, by omega⟩
  · have hnext : order.destination.number = 0 := by omega
    rw [← order.destination.ofNumber_number, hnext]
    rfl
  · have hpart : (order.destination.number * 64 + order.widthCode * 16 + (order.count - 1)) / 64 % 4 =
        order.destination.number := by omega
    rw [hpart, Destination.ofNumber_number]
  · have hpart : (order.destination.number * 64 + order.widthCode * 16 + (order.count - 1)) / 16 % 4 =
        order.widthCode := by omega
    rw [hpart, hwidth]

theorem length_padding (pad : Int → UInt8) (address : Int) :
    ((padding pad address).length : Int) = address % 2 := by
  rw [padding]
  split <;> simp <;> omega

theorem length_head (order : Order) : order.head.length = 1 + order.destination.offsetBytes := by
  rw [head, List.length_cons, Bytes.length_ofNat, Nat.add_comm]

theorem length_front (pad : Int → UInt8) (address : Int) (order : Order) :
    address + (order.front pad address).length =
      if 1 < order.width then
        address + 1 + order.destination.offsetBytes + (address + 1 + order.destination.offsetBytes) % 2
      else address + 1 + order.destination.offsetBytes := by
  rw [front, List.length_append, length_head]
  split
  · push_cast
    rw [length_padding]
    ring_nf
  · simp
    ring

theorem length_body (pad : Int → UInt8) (address : Int) (order : Order) :
    address + (order.body pad address).length =
      (if 1 < order.width then
        address + 1 + order.destination.offsetBytes + (address + 1 + order.destination.offsetBytes) % 2
      else address + 1 + order.destination.offsetBytes) + order.values.length * order.width := by
  rw [← length_front, body, List.length_append, length_values]
  push_cast
  ring

theorem length_encode (pad : Int → UInt8) (address : Int) (order : Order) :
    ((order.encode pad address).length : Int) = (order.body pad address).length +
      (address + (order.body pad address).length) % 2 := by
  rw [encode, List.length_append, Nat.cast_add, length_padding]

/-- What follows a command stands at an even address. -/
theorem even_encode (pad : Int → UInt8) (address : Int) (order : Order) :
    (address + (order.encode pad address).length) % 2 = 0 := by
  rw [length_encode]
  omega

theorem map_placeAll (pad : Int → UInt8) (address : Int) (orders : List Order) :
    (placeAll pad address orders).map Command.order = orders := by
  induction orders generalizing address with
  | nil => rfl
  | cons order orders ih => rw [placeAll, List.map_cons, ih, placed, Command.order]

theorem address_of_placeAll {command : Command} {orders : List Order}
    (h : command ∈ (placeAll pad address orders).head?) : command.address = address := by
  cases orders with
  | nil => cases h
  | cons order orders =>
    cases h
    rfl

theorem length_of_placeAll {command : Command} {orders : List Order}
    (h : command ∈ placeAll pad address orders) :
    command.length = (command.order.encode pad command.address).length := by
  induction orders generalizing address with
  | nil => cases h
  | cons order orders ih =>
    rcases List.mem_cons.mp h with rfl | hrest
    · rfl
    · exact ih hrest

/-- A command starts where the one before it ends, at an even address. -/
theorem isChain_placeAll (pad : Int → UInt8) (address : Int) (orders : List Order) :
    (placeAll pad address orders).IsChain fun command next ↦
      next.address = command.address + command.length ∧ next.address % 2 = 0 := by
  induction orders generalizing address with
  | nil => exact .nil
  | cons order orders ih =>
    rw [placeAll, List.isChain_cons]
    refine ⟨fun next hnext ↦ ?_, ih _⟩
    rw [address_of_placeAll hnext]
    exact ⟨rfl, even_encode pad address order⟩

end Order

theorem Gives.run_readCommand {order : Order} (ho : order.Encodable)
    (h : Gives readByte s address (order.encode pad address)) (stop : Stop → ε) :
    run (readCommand readByte stop address) s = (.ok (order.placed pad address), s) := by
  obtain ⟨hbyte, hzero, hdestination, hwidth, hcount⟩ := ho.commandByte
  have hbody := h.left
  have hhead : Gives readByte s address ([order.commandByte.toUInt8] ++
      Bytes.ofNat order.destination.offsetBytes (order.offset.getD 0)) := hbody.left.left
  have hcommand : run (readByte address) s = (.ok order.commandByte, s) := by
    rw [hhead.left.first]
    simp [Nat.toUInt8, Nat.mod_eq_of_lt hbyte]
  have hoffset : run (readOffset readByte (address + 1) order.destination) s =
      (.ok (order.offset, address + 1 + order.destination.offsetBytes), s) :=
    Gives.run_readOffset ho hhead.right
  have hvalues := hbody.right
  rw [Order.length_front] at hvalues
  have hstored : (if order.destination = .repeated then 1 else order.count) = order.values.length :=
    ho.stored.symm
  rw [readCommand, Action.run_bind_ok hcommand, if_neg hzero, hdestination, hcount, hwidth]
  dsimp only
  rw [Action.run_bind_ok hoffset, hstored, Action.run_bind_ok (Gives.run_readValues hvalues ho.fits),
    ← Order.length_body]
  rw [Action.run_pure, Order.placed, Order.length_encode]
  ring_nf

theorem Gives.run_readCommand_end (h : Gives readByte s address [0]) (stop : Stop → ε) :
    run (readCommand readByte stop address) s = (.error (stop (.finished address)), s) := by
  have hcommand : run (readByte address) s = (.ok 0, s) := h.first
  rw [readCommand, Action.run_bind_ok hcommand, if_pos rfl, Action.run_bind_error (Action.run_throw _ _)]

end InitData

/-- Bytes that can be read from an address on, one by one. -/
abbrev Memory.Shows (memory : Memory) : Int → List UInt8 → Prop :=
  Bytes.EachAt fun address b ↦ memory.number? address 1 = some b.toNat

/-- Bytes that can be read at once can be read one by one. -/
theorem Memory.Sound.shows {memory : Memory} (hs : memory.Sound) {address : Int} {bytes : List UInt8}
    (h : memory.bytes? address bytes.length = some bytes.toArray) : memory.Shows address bytes := by
  intro i b hb
  obtain ⟨hi, rfl⟩ := List.getElem?_eq_some_iff.mp hb
  have hone : (bytes.toArray.extract i (i + 1)).toList = [bytes[i]] := by
    rw [Array.toList_extract, List.extract_eq_take_drop, Nat.add_sub_cancel_left,
      List.drop_eq_getElem_cons hi]
    rfl
  rw [hs.number?_of_bytes? h i 1 Nat.one_pos hi, hone, Bytes.toNat_cons, Bytes.toNat_nil]
  simp [Bytes.modulus]

namespace Resident

namespace Scanner

open InitData

variable {ρ : Type} {scanner scanner' : Scanner ρ} {memory : Memory} {address : Int} {pad : Int → UInt8}
  {order : Order} {orders : List Order} {done : Array Command}

theorem run_readNumber (hr : scanner.host.Reliable) {size n : Nat}
    (h : scanner.memory.number? address size = some n) :
    run (readNumber size address) scanner = (.ok n, scanner) := by
  obtain ⟨bytes, hbytes, rfl⟩ := Option.map_eq_some_iff.mp h
  have hread : run (onHost .readBytes address (Host.readBytes address size)) scanner =
      (.ok bytes, scanner) := by
    have hrun := run_onHost hr .readBytes .readBytes address (·.read address size)
    rwa [Memory.bytes?_eq_some.mp hbytes] at hrun
  rw [readNumber, read, Action.run_bind_ok (Action.run_bind_ok hread)]
  rfl

theorem run_readNumber_none (hr : scanner.host.Reliable) {size : Nat}
    (h : scanner.memory.number? address size = none) :
    ∃ e, run (readNumber size address) scanner = (.error (.host e), scanner) := by
  have hread := run_onHost hr .readBytes .readBytes address (·.read address size)
  cases hbytes : scanner.memory.read address size with
  | ok bytes =>
    rw [Memory.number?, Memory.bytes?_eq_some.mpr hbytes] at h
    cases h
  | error e =>
    rw [hbytes] at hread
    exact ⟨_, Action.run_bind_error (Action.run_bind_error hread)⟩

theorem gives_of_shows (hr : scanner.host.Reliable) {bytes : List UInt8}
    (h : scanner.memory.Shows address bytes) :
    Gives (fun address ↦ (readNumber 1 address).mapError InitStop.scan) scanner address bytes := by
  intro i b hb
  exact Action.run_mapError_eq_ok.mpr (run_readNumber hr (h i b hb))

theorem walkStep_encode (done : Array Command) (hs : Has (Host.Steady memory) scanner)
    (ho : order.Encodable) (h : memory.Shows address (order.encode pad address)) :
    ∃ scanner', run (walkStep (address, done)) scanner =
        (.ok (.inl (address + (order.encode pad address).length, done.push (order.placed pad address))),
          scanner') ∧ Has (Host.Steady memory) scanner' := by
  obtain ⟨hr, rfl⟩ := hs
  have hread := (gives_of_shows hr h).run_readCommand ho InitStop.data
  obtain ⟨⟨⟩, scanner', hsteady, hmark⟩ := (markData_never (Host.steady_lasting scanner.memory) address
    ⟨"InitData", (order.placed pad address).length⟩).exists_ok ⟨hr, rfl⟩
  refine ⟨scanner', ?_, hsteady⟩
  rw [walkStep, Action.run_bind_ok (Action.run_attempt_eq_ok.mpr hread)]
  dsimp only
  rw [Action.run_bind_ok hmark]
  rfl

theorem walkStep_end (hr : scanner.host.Reliable) (h : scanner.memory.Shows address [0]) :
    run (walkStep (address, done)) scanner = (.ok (.inr done), scanner) := by
  have hread := (gives_of_shows hr h).run_readCommand_end InitStop.data
  rw [walkStep, Action.run_bind_ok (Action.run_attempt_eq_ok.mpr hread)]
  rfl

/-- The walk through encoded commands takes one of them in each round. -/
theorem rounds_encodeAll {r : Except ScanError (Array Command)} (ho : ∀ order ∈ orders, order.Encodable)
    (h : memory.Shows address (Order.encodeAll pad address orders))
    (hrounds : Rounds walkStep (address, done) scanner r scanner') (hs : Has (Host.Steady memory) scanner) :
    r.map Array.toList = .ok (done.toList ++ Order.placeAll pad address orders) := by
  -- the bytes of the commands in `done` are behind us, `h` is about those from `address` on
  induction orders generalizing address done scanner with
  | nil =>
    obtain ⟨hr, rfl⟩ := hs
    obtain ⟨rfl, -⟩ := hrounds.of_answer (walkStep_end hr h)
    rw [Order.placeAll, List.append_nil]
    rfl
  | cons order orders ih =>
    obtain ⟨hfirst, hrest⟩ := List.forall_mem_cons.mp ho
    obtain ⟨middle, hstep, hsteady⟩ := walkStep_encode done hs hfirst h.left
    have hfound := ih hrest h.right (hrounds.of_next hstep) hsteady
    rw [hfound, Array.toList_push, List.append_assoc]
    rfl

/-- The walk through commands reads back what was encoded, from any address on and whatever fills the gaps. -/
theorem walkInitData_encodeAll (scanner : Scanner ρ) (start : Int) (pad : Int → UInt8) (orders : List Order)
    (hr : scanner.host.Reliable) (ho : ∀ order ∈ orders, order.Encodable)
    (h : scanner.memory.Shows start (Order.encodeAll pad start orders)) :
    ∃ commands scanner', run (walkInitData start) scanner = (.ok commands, scanner') ∧
      commands.map Command.order = orders ∧
      (∀ command ∈ commands.head?, command.address = start) ∧
      (commands.IsChain fun command next ↦
        next.address = command.address + command.length ∧ next.address % 2 = 0) ∧
      ∀ command ∈ commands,
        command.length = (command.order.encode pad command.address).length := by
  obtain ⟨r, scanner', hrounds, hrun⟩ := (loopsEnd ⟨none, none⟩ scanner).commands start
  rw [rounds_encodeAll ho h hrounds ⟨hr, rfl⟩, List.nil_append] at hrun
  exact ⟨_, scanner', hrun, Order.map_placeAll pad start orders, fun _ ↦ Order.address_of_placeAll,
    Order.isChain_placeAll pad start orders, fun _ ↦ Order.length_of_placeAll⟩

/-- Two bytes, a long value to be repeated and a short one for an offset. -/
def sampleOrders : List Order := [
  ⟨.next, 1, 2, none, [1, 2]⟩, ⟨.repeated, 4, 16, none, [0xdeadbeef]⟩, ⟨.offset24, 2, 1, some 0x10203, [7]⟩]

def commandsPlan : Region.Plan where
  name := "ROM"
  address := 0x1001
  data := some (Order.encodeAll (fun _ ↦ 0xff) 0x1001 sampleOrders).toArray

def sampleCommands : Scanner Unit where
  host := (run (Host.createBlock commandsPlan) (.ofProgram .empty)).2
  registry := []
  asked := []
  diagnostics := #[]
  lookups := ()

theorem walkInitData_encodeAll_sample :
    sampleCommands.host.Reliable ∧ (∀ order ∈ sampleOrders, order.Encodable) ∧
      sampleCommands.memory.Shows 0x1001 (Order.encodeAll (fun _ ↦ 0xff) 0x1001 sampleOrders) ∧
      (∃ commands scanner', run (walkInitData 0x1001) sampleCommands = (.ok commands, scanner') ∧
        commands.map Command.order = sampleOrders ∧
        commands.IsChain fun command next ↦
          next.address = command.address + command.length ∧ next.address % 2 = 0) ∧
      (run (walkInitData 0x1001) sampleCommands).1.map (List.map Command.address) =
        .ok [0x1001, 0x1004, 0x100a] := by
  have hr : sampleCommands.host.Reliable := rfl
  have ho : ∀ order ∈ sampleOrders, order.Encodable := by
    simp only [sampleOrders, List.forall_mem_cons]
    refine ⟨?_, ?_, ?_, fun _ hm ↦ nomatch hm⟩
    · exact ⟨by decide, by decide, fun _ ↦ rfl, fun h ↦ absurd rfl h, rfl, by decide, by decide⟩
    · exact ⟨by decide, by decide, fun _ ↦ rfl, fun h ↦ absurd rfl h, rfl, by decide, by decide⟩
    · exact ⟨by decide, by decide, by decide, fun _ ↦ ⟨0x10203, rfl, by decide⟩, rfl, by decide, by decide⟩
  have hcreate : Memory.create commandsPlan [] =
      .ok (Memory.planned commandsPlan 16, sampleCommands.memory) := by rfl
  have hs : sampleCommands.memory.Sound :=
    (Memory.Laid.create .empty (Region.Plan.fits_of_one (Or.inr rfl)) hcreate).sound
  have h : sampleCommands.memory.Shows 0x1001 (Order.encodeAll (fun _ ↦ 0xff) 0x1001 sampleOrders) :=
    hs.shows (by decide +kernel)
  obtain ⟨commands, scanner', hrun, horders, -, hchain, -⟩ :=
    walkInitData_encodeAll sampleCommands 0x1001 (fun _ ↦ 0xff) sampleOrders hr ho h
  exact ⟨hr, ho, h, ⟨commands, scanner', hrun, horders, hchain⟩, by decide +kernel⟩

end Scanner

end Resident

end Hunks
