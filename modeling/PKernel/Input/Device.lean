import PKernel.Input.Mouse
import PKernel.Library.Ring

/-! # Input devices

`input.c`. Packets go through a ring of 32 of them, as bytes: a read takes one packet out and
returns as many of its bytes as its header says.
-/

namespace PKernel.Ps2

open Library

/-! ## Packets as bytes -/

/-- The bytes of a number, lowest one first. -/
def littleEndian : Nat → Nat → List UInt8
  | 0, _ => []
  | count + 1, value => UInt8.ofNat value :: littleEndian count (value / 256)

/-- `input_packet_key_t` or `input_packet_rel_t`. -/
def InputData.bytes : InputData → List UInt8
  | .key action code => littleEndian 1 action ++ littleEndian 2 code
  | .rel axis value => littleEndian 1 axis ++ littleEndian 4 (value % 2 ^ 32).toNat

/-- The packet behind its header. -/
def InputPacket.bytes (packet : InputPacket) : List UInt8 :=
  littleEndian 4 packet.type ++ littleEndian 1 packet.size ++ packet.data.bytes

/-- `IT_KEY`. -/
def itKey : Nat := 1

/-- `IT_REL`. -/
def itRel : Nat := 2

/-- A packet that says what it is and how long it is, and whose values fit. -/
inductive InputPacket.WellFormed : InputPacket → Prop
  | key {action code : Nat} (haction : action < 2 ^ 8) (hcode : code < 2 ^ 16) :
      WellFormed ⟨itKey, 8, .key action code⟩
  | rel {axis : Nat} {value : Int} (haxis : axis < 2 ^ 8)
      (hvalue : -2 ^ 31 ≤ value ∧ value < 2 ^ 31) : WellFormed ⟨itRel, 10, .rel axis value⟩

/-- The number in some bytes. -/
def number : List UInt8 → Nat
  | [] => 0
  | byte :: bytes => byte.toNat + 256 * number bytes

section Bytes

variable {count value : Nat} {packet : InputPacket}

@[simp]
theorem length_littleEndian : (littleEndian count value).length = count := by
  induction count generalizing value with
  | zero => rfl
  | succ count ih => rw [littleEndian, List.length_cons, ih]

theorem number_littleEndian (count : Nat) {value : Nat} (hvalue : value < 256 ^ count) :
    number (littleEndian count value) = value := by
  induction count generalizing value with
  | zero =>
      rw [pow_zero, Nat.lt_one_iff] at hvalue
      rw [hvalue]
      rfl
  | succ count ih =>
      have hrest : value / 256 < 256 ^ count := Nat.div_lt_of_lt_mul (by rwa [← pow_succ'])
      rw [littleEndian, number, ih hrest, UInt8.toNat_ofNat']
      omega

theorem InputPacket.WellFormed.length_bytes (hpacket : packet.WellFormed) :
    packet.bytes.length = packet.size := by
  cases hpacket <;> simp [InputPacket.bytes, InputData.bytes]

theorem InputPacket.number_size (hsize : packet.size < 2 ^ 8) :
    number ((packet.bytes.drop 4).take 1) = packet.size := number_littleEndian 1 hsize

end Bytes

/-! ## The ring -/

/-- `INPUT_BUFFER_SIZE`. -/
def inputBufferSize : Nat := 32

/-- `input_device_t`, with the bytes of each `input_packet_t`. -/
structure InputDevice where
  size : Nat
  capacity : Nat
  head : Nat
  tail : Nat
  packets : Nat → List UInt8

/-- `input_add_device`, in memory that has been cleared. -/
def inputAddDevice : InputDevice where
  size := 0
  capacity := inputBufferSize
  head := 0
  tail := 0
  packets _ := List.replicate 10 0

/-- `memcpy` into a packet. -/
def memcpy (target source : List UInt8) (size : Nat) : List UInt8 :=
  source.take size ++ target.drop size

def inputProvidePacket (device : InputDevice) (packet : InputPacket) : InputDevice × Nat :=
  if device.size = device.capacity then (device, 0)
  else
    ({ device with
        packets := Function.update device.packets device.head
          (memcpy (device.packets device.head) packet.bytes packet.size)
        head := (device.head + 1) % device.capacity
        size := device.size + 1 }, 1)

/-- `input_read`, which sleeps if there is no packet. -/
def inputRead (device : InputDevice) (size : Nat) : Option (InputDevice × List UInt8) :=
  if device.size = 0 then none
  else
    let packet := device.packets device.tail
    -- the size stands behind the type
    let packetSize := number ((packet.drop 4).take 1)
    if size < packetSize then some (device, [])
    else
      some ({ device with
        tail := (device.tail + 1) % device.capacity
        size := device.size - 1 }, packet.take packetSize)

/-- The device holds packets, first one first. -/
structure InputDevice.Holds (device : InputDevice) (waiting : List InputPacket) : Prop where
  capacity : device.capacity = inputBufferSize
  length : waiting.length = device.size
  room : device.size ≤ device.capacity
  tail : device.tail < device.capacity
  head : device.head = (device.tail + device.size) % device.capacity
  formed : ∀ packet ∈ waiting, packet.WellFormed
  packets : ∀ i packet, waiting[i]? = some packet →
    (device.packets ((device.tail + i) % device.capacity)).take packet.size = packet.bytes

section Ring

variable {device : InputDevice} {waiting : List InputPacket} {packet : InputPacket}

theorem inputAddDevice_holds : inputAddDevice.Holds [] :=
  ⟨rfl, rfl, Nat.zero_le _, by decide, rfl, by simp, by simp⟩

/-- A packet joins the others unless there are 32 of them. -/
theorem InputDevice.Holds.provide (hholds : device.Holds waiting) (hpacket : packet.WellFormed) :
    (inputProvidePacket device packet).1.Holds
        (if waiting.length = inputBufferSize then waiting else waiting ++ [packet]) ∧
      (inputProvidePacket device packet).2 = if waiting.length = inputBufferSize then 0 else 1 := by
  unfold inputProvidePacket
  rw [hholds.length, ← hholds.capacity]
  split
  next => exact ⟨hholds, rfl⟩
  next hroom =>
    have hlt : device.size < device.capacity := Nat.lt_of_le_of_ne hholds.room hroom
    refine ⟨⟨hholds.capacity, ?_, hlt, hholds.tail, ?_, ?_, ?_⟩, rfl⟩
    · simp [hholds.length]
    · change (device.head + 1) % device.capacity = (device.tail + (device.size + 1)) % device.capacity
      rw [hholds.head, Nat.mod_add_mod, Nat.add_assoc]
    · intro other hother
      rcases List.mem_append.mp hother with hother | hother
      · exact hholds.formed other hother
      · exact List.mem_singleton.mp hother ▸ hpacket
    · intro i other hother
      change (Function.update device.packets device.head _
        ((device.tail + i) % device.capacity)).take other.size = other.bytes
      rcases Nat.lt_or_ge i waiting.length with hi | hi
      · rw [List.getElem?_append_left hi] at hother
        rw [hholds.length] at hi
        rw [hholds.head, Function.update_of_ne (Ring.slot_ne hi hlt)]
        exact hholds.packets i other hother
      · rw [List.getElem?_append_right hi] at hother
        have hi' : i = waiting.length := by
          have := (List.getElem?_eq_some_iff.mp hother).1
          rw [List.length_singleton] at this
          omega
        subst hi'
        rw [Nat.sub_self] at hother
        cases hother
        rw [hholds.length, ← hholds.head, Function.update_self, memcpy, ← hpacket.length_bytes,
          List.take_length, List.take_left]

theorem InputPacket.WellFormed.size_lt (hpacket : packet.WellFormed) :
    5 ≤ packet.size ∧ packet.size < 2 ^ 8 := by
  cases hpacket with
  | key _ _ => exact ⟨(by decide : 5 ≤ 8), (by decide : 8 < 2 ^ 8)⟩
  | rel _ _ => exact ⟨(by decide : 5 ≤ 10), (by decide : 10 < 2 ^ 8)⟩

/-- The size is found in front of whatever else is in the slot. -/
theorem number_size_of_take (hpacket : packet.WellFormed) {slot : List UInt8}
    (hslot : slot.take packet.size = packet.bytes) :
    number ((slot.drop 4).take 1) = packet.size := by
  obtain ⟨hlow, hhigh⟩ := hpacket.size_lt
  have hlength := hpacket.length_bytes
  have hsame : (slot.drop 4).take 1 = (packet.bytes.drop 4).take 1 := by
    rw [← List.take_append_drop packet.size slot, hslot, List.drop_append_of_le_length (by omega),
      List.take_append_of_le_length (by rw [List.length_drop]; omega)]
  rw [hsame, InputPacket.number_size hhigh]

/-- A read takes out the first packet, if there is one and the buffer has room for it. -/
theorem InputDevice.Holds.read (hholds : device.Holds waiting) (size : Nat) :
    (waiting = [] → inputRead device size = none) ∧
    ∀ packet rest, waiting = packet :: rest →
      ∃ next, inputRead device size = some (next, if size < packet.size then [] else packet.bytes) ∧
        next.Holds (if size < packet.size then waiting else rest) := by
  refine ⟨fun hnone => ?_, ?_⟩
  · rw [inputRead, if_pos]
    rw [← hholds.length, hnone]
    rfl
  · rintro packet rest rfl
    have hsize : device.size = rest.length + 1 := hholds.length.symm
    have hpacket := hholds.formed packet List.mem_cons_self
    have hslot : (device.packets device.tail).take packet.size = packet.bytes := by
      have hfirst := hholds.packets 0 packet rfl
      rwa [Nat.add_zero, Nat.mod_eq_of_lt hholds.tail] at hfirst
    rw [inputRead, if_neg (by omega)]
    simp only [number_size_of_take hpacket hslot, hslot]
    split
    next => exact ⟨device, rfl, hholds⟩
    next =>
      have hpositive : 0 < device.capacity := Nat.zero_lt_of_lt hholds.tail
      refine ⟨_, rfl, hholds.capacity, ?_, ?_, Nat.mod_lt _ hpositive, ?_, ?_, ?_⟩
      · change rest.length = device.size - 1
        omega
      · have hroom := hholds.room
        change device.size - 1 ≤ device.capacity
        omega
      · change device.head = ((device.tail + 1) % device.capacity + (device.size - 1)) %
          device.capacity
        rw [hholds.head, Nat.mod_add_mod]
        congr 1
        omega
      · exact fun other hother => hholds.formed other (List.mem_cons_of_mem _ hother)
      · intro i other hother
        change (device.packets (((device.tail + 1) % device.capacity + i) % device.capacity)).take
          other.size = other.bytes
        rw [Nat.mod_add_mod, Nat.add_assoc, Nat.add_comm 1 i]
        exact hholds.packets (i + 1) other hother

end Ring

end PKernel.Ps2
