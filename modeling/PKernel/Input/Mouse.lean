import Mathlib.Data.List.Basic
import Mathlib.Logic.Function.Basic
import PKernel.Machine

/-! # The PS/2 mouse

`mouse_handler` gets the bytes of a mouse one by one and makes input packets of each three of
them, or four for a mouse with a wheel. A movement has nine bits, eight in a byte of its own and
the sign in the first byte; the handler only reads the eight.
-/

namespace PKernel.Ps2

open Function (update)

/-- `mouse_type`. -/
inductive MouseType where
  | basic
  | scrolling
  | none
deriving DecidableEq, Repr

/-- `data` of an `input_packet_t`. -/
inductive InputData where
  | key (action code : Nat)
  | rel (axis : Nat) (value : Int)
deriving DecidableEq, Repr

/-- `input_packet_t`. -/
structure InputPacket where
  type : Nat
  size : Nat
  data : InputData
deriving DecidableEq, Repr

/-- The global variables of the module. -/
structure Mouse where
  mouseType : MouseType
  packetLoc : Nat
  packet : Nat → UInt8
  buttons : Nat → Bool

/-- `BTN_LEFT`. -/
def btnLeft : Nat := 272

/-- An `IT_KEY` packet: `IT_ACTION_PRESS` is 0 and `IT_ACTION_RELEASE` is 1. -/
def keyPacket (pressed : Bool) (button : Nat) : InputPacket :=
  ⟨1, 8, .key (if pressed then 0 else 1) (btnLeft + button)⟩

/-- An `IT_REL` packet. -/
def relPacket (axis : Nat) (value : Int) : InputPacket := ⟨2, 10, .rel axis value⟩

/-- The value of a `char`, which is signed. -/
def char (byte : UInt8) : Int := if byte.toNat < 128 then byte.toNat else byte.toNat - 256

namespace Mouse

/-- `packet_full`. -/
def packetFull (mouse : Mouse) : Bool :=
  mouse.mouseType = .basic ∧ mouse.packetLoc = 3 ∨ mouse.mouseType = .scrolling ∧ mouse.packetLoc = 4

/-- `buttons[index]` of the packet. -/
def pressed (mouse : Mouse) (index : Nat) : Bool := (mouse.packet 0).toNat.testBit index

/-- The packets of the loop over the buttons. -/
def keyPackets (mouse : Mouse) : List InputPacket :=
  (List.range 3).filterMap fun index =>
    if (mouse.pressed index).xor (mouse.buttons index) then
      some (keyPacket (mouse.pressed index) index)
    else none

/-- The packet of one axis, from the byte at a place of the packet. -/
def relPackets (mouse : Mouse) (axis place : Nat) : List InputPacket :=
  if mouse.packet place ≠ 0 then [relPacket axis (char (mouse.packet place))] else []

/-- `mouse_handler` with the byte that it reads, and the packets it provides. Of a mouse of no
known type it reads all bytes there are. -/
def mouseHandler (mouse : Mouse) (data : UInt8) : Mouse × List InputPacket :=
  if mouse.mouseType = .none then (mouse, [])
  else if mouse.packetLoc = 0 ∧ data.toNat.testBit 3 = false then (mouse, [])
  else
    let mouse := { mouse with
      packet := update mouse.packet mouse.packetLoc data
      packetLoc := mouse.packetLoc + 1 }
    if mouse.packetFull then
      ({ mouse with
          packetLoc := 0
          buttons := fun index => if index < 3 then mouse.pressed index else mouse.buttons index },
        mouse.keyPackets ++ mouse.relPackets 0 1 ++ mouse.relPackets 1 2)
    else (mouse, [])

/-- The bytes of a stream, one after the other. -/
def feed (mouse : Mouse) : List UInt8 → Mouse × List InputPacket
  | [] => (mouse, [])
  | data :: stream =>
      let handled := mouse.mouseHandler data
      let fed := handled.1.feed stream
      (fed.1, handled.2 ++ fed.2)

end Mouse

/-! ## What a mouse says -/

/-- A packet of three bytes, with its third bit set and no overflow. -/
structure Packet where
  first : UInt8
  second : UInt8
  third : UInt8
  aligned : first.toNat.testBit 3 = true
  fits : first.toNat.testBit 6 = false ∧ first.toNat.testBit 7 = false

namespace Packet

def bytes (packet : Packet) : List UInt8 := [packet.first, packet.second, packet.third]

/-- The state of a button. -/
def button (packet : Packet) (index : Nat) : Bool := packet.first.toNat.testBit index

/-- A movement of nine bits, of which one is the sign. -/
def movement (sign : Bool) (byte : UInt8) : Int := byte.toNat - if sign then 256 else 0

def movementX (packet : Packet) : Int := movement (packet.first.toNat.testBit 4) packet.second

def movementY (packet : Packet) : Int := movement (packet.first.toNat.testBit 5) packet.third

/-- The movements have their sign in the eighth bit, too. -/
def Slow (packet : Packet) : Prop :=
  (-128 ≤ packet.movementX ∧ packet.movementX < 128) ∧
    -128 ≤ packet.movementY ∧ packet.movementY < 128

end Packet

/-- One event for each button that has changed, with its new state. -/
def buttonEvents (before now : Nat → Bool) : List InputPacket :=
  ((List.range 3).filter fun index => now index ≠ before index).map fun index =>
    keyPacket (now index) index

/-- One event for a movement. -/
def movementEvents (axis : Nat) (movement : Int) : List InputPacket :=
  if movement ≠ 0 then [relPacket axis movement] else []

/-- The events of some packets. -/
def events (before : Nat → Bool) : List Packet → List InputPacket
  | [] => []
  | packet :: packets =>
      buttonEvents before packet.button ++ movementEvents 0 packet.movementX ++
        movementEvents 1 packet.movementY ++ events packet.button packets

variable {mouse : Mouse} {before : Nat → Bool} {packet : Packet} {packets : List Packet}
  {stream : List UInt8} {sign : Bool} {byte : UInt8}

/-! ## Movements -/

theorem char_lt (byte : UInt8) : -128 ≤ char byte ∧ char byte < 128 := by
  have hlt : byte.toNat < 256 := byte.toNat_lt
  unfold char
  split <;> omega

/-- A slow movement is the value of its byte. -/
theorem char_of_slow (hslow : -128 ≤ Packet.movement sign byte ∧ Packet.movement sign byte < 128) :
    char byte = Packet.movement sign byte := by
  have hlt : byte.toNat < 256 := byte.toNat_lt
  unfold Packet.movement at *
  unfold char
  cases sign with
  | false =>
      simp only [Bool.false_eq_true, if_false] at hslow ⊢
      rw [if_pos (by omega)]
      omega
  | true =>
      simp only [if_true] at hslow ⊢
      rw [if_neg (by omega)]

theorem char_eq_zero : char byte = 0 ↔ byte = 0 := by
  have hlt : byte.toNat < 256 := byte.toNat_lt
  rw [← UInt8.toNat_inj]
  unfold char
  split
  · simp
  · simp only [UInt8.toNat_zero]
    omega

theorem movementEvents_of_slow
    (hslow : -128 ≤ Packet.movement sign byte ∧ Packet.movement sign byte < 128) (axis : Nat) :
    movementEvents axis (Packet.movement sign byte) =
      if byte ≠ 0 then [relPacket axis (char byte)] else [] := by
  rw [movementEvents, ← char_of_slow hslow]
  exact if_congr (not_congr char_eq_zero) rfl rfl

/-! ## Handling a packet -/

/-- The mouse behind a packet that it got from its start. -/
def Mouse.taken (mouse : Mouse) (packet : Packet) : Mouse where
  mouseType := mouse.mouseType
  packetLoc := 0
  packet := update (update (update mouse.packet 0 packet.first) 1
    packet.second) 2 packet.third
  buttons index := if index < 3 then packet.button index else mouse.buttons index

/-- The events of the loop over the buttons. -/
theorem keyPackets_eq (hpressed : ∀ index, mouse.pressed index = packet.button index)
    (hbuttons : ∀ index < 3, mouse.buttons index = before index) :
    mouse.keyPackets = buttonEvents before packet.button := by
  rw [Mouse.keyPackets, buttonEvents, ← List.filterMap_eq_map, ← List.filterMap_eq_filter,
    List.filterMap_filterMap]
  refine List.filterMap_congr fun index hindex => ?_
  rw [hpressed, hbuttons index (List.mem_range.mp hindex)]
  cases hnow : packet.button index <;> cases hold : before index <;>
    simp [Option.guard, hnow, hold]

/-- Three bytes from the start of a packet on. -/
theorem feed_packet (htype : mouse.mouseType = .basic) (hstart : mouse.packetLoc = 0)
    (hbuttons : ∀ index < 3, mouse.buttons index = before index) :
    mouse.feed (packet.bytes ++ stream) =
      (((mouse.taken packet).feed stream).1,
        buttonEvents before packet.button ++
          (if packet.second ≠ 0 then [relPacket 0 (char packet.second)] else []) ++
          (if packet.third ≠ 0 then [relPacket 1 (char packet.third)] else []) ++
            ((mouse.taken packet).feed stream).2) := by
  have haligned := packet.aligned
  have hkeys : ({ mouse.taken packet with packetLoc := 3, buttons := mouse.buttons } :
      Mouse).keyPackets = buttonEvents before packet.button :=
    keyPackets_eq (fun _ => rfl) hbuttons
  have hfirst : mouse.mouseHandler packet.first = ({ mouse with
      packet := update mouse.packet 0 packet.first, packetLoc := 1 }, []) := by
    simp [Mouse.mouseHandler, Mouse.packetFull, htype, hstart, haligned]
  have hsecond : ({ mouse with
      packet := update mouse.packet 0 packet.first, packetLoc := 1 } : Mouse).mouseHandler
        packet.second = ({ mouse with
      packet := update (update mouse.packet 0 packet.first) 1 packet.second
      packetLoc := 2 }, []) := by
    simp [Mouse.mouseHandler, Mouse.packetFull, htype]
  have hthird : ({ mouse with
      packet := update (update mouse.packet 0 packet.first) 1 packet.second
      packetLoc := 2 } : Mouse).mouseHandler packet.third = (mouse.taken packet,
        buttonEvents before packet.button ++
          (if packet.second ≠ 0 then [relPacket 0 (char packet.second)] else []) ++
          (if packet.third ≠ 0 then [relPacket 1 (char packet.third)] else [])) := by
    rw [← hkeys]
    simp [Mouse.mouseHandler, Mouse.packetFull, htype, Mouse.relPackets, Mouse.taken]
    rfl
  rw [Packet.bytes, List.cons_append, List.cons_append, List.cons_append, List.nil_append]
  simp only [Mouse.feed, hfirst, hsecond, hthird, List.nil_append]

/-! ## Streams -/

/-- Between packets the mouse is at the start of one, and knows the buttons of the last. -/
theorem feed_of_slow (hslow : ∀ packet ∈ packets, packet.Slow) (htype : mouse.mouseType = .basic)
    (hstart : mouse.packetLoc = 0) (hbuttons : ∀ index < 3, mouse.buttons index = before index) :
    (mouse.feed (packets.flatMap Packet.bytes)).2 = events before packets := by
  induction packets generalizing mouse before with
  | nil => rfl
  | cons packet packets ih =>
      obtain ⟨hx, hy⟩ := hslow packet List.mem_cons_self
      have hrest : ((mouse.taken packet).feed (packets.flatMap Packet.bytes)).2 =
          events packet.button packets :=
        ih (fun other hother => hslow other (List.mem_cons_of_mem _ hother)) htype rfl
          fun index hindex => if_pos hindex
      rw [List.flatMap_cons, feed_packet htype hstart hbuttons, hrest, events, Packet.movementX,
        Packet.movementY, movementEvents_of_slow hx, movementEvents_of_slow hy]

/-- The movements that the handler provides are values of a `char`. -/
theorem feed_rel {mouse : Mouse} {stream : List UInt8} {axis : Nat} {value : Int}
    (hmem : relPacket axis value ∈ (mouse.feed stream).2) : -128 ≤ value ∧ value < 128 := by
  induction stream generalizing mouse with
  | nil => cases hmem
  | cons data stream ih =>
      rcases List.mem_append.mp hmem with hhandled | hrest
      · have hrel {mouse : Mouse} {place other : Nat}
            (hmem : relPacket axis value ∈ mouse.relPackets other place) :
            -128 ≤ value ∧ value < 128 := by
          unfold Mouse.relPackets at hmem
          split at hmem
          · obtain ⟨-, rfl⟩ : axis = other ∧ value = char (mouse.packet place) := by
              simpa [relPacket] using hmem
            exact char_lt _
          · cases hmem
        unfold Mouse.mouseHandler at hhandled
        split at hhandled
        · cases hhandled
        · split at hhandled
          · cases hhandled
          · simp only at hhandled
            split at hhandled
            · rcases List.mem_append.mp hhandled with hfront | hlast
              · rcases List.mem_append.mp hfront with hkey | hfirst
                · obtain ⟨index, -, hkey⟩ := List.mem_filterMap.mp hkey
                  split at hkey
                  · simp [keyPacket, relPacket] at hkey
                  · cases hkey
                · exact hrel hfirst
              · exact hrel hlast
            · cases hhandled
      · exact ih hrest

/-- All movements are among the events. -/
theorem mem_events (hpacket : packet ∈ packets) :
    (packet.movementX ≠ 0 → relPacket 0 packet.movementX ∈ events before packets) ∧
      (packet.movementY ≠ 0 → relPacket 1 packet.movementY ∈ events before packets) := by
  induction packets generalizing before with
  | nil => cases hpacket
  | cons first packets ih =>
      rcases List.mem_cons.mp hpacket with rfl | hpacket
      · constructor
        · intro hne
          simp [events, movementEvents, hne]
        · intro hne
          simp [events, movementEvents, hne]
      · exact ⟨fun hne => List.mem_append_right _ ((ih hpacket).1 hne),
          fun hne => List.mem_append_right _ ((ih hpacket).2 hne)⟩

theorem slow_of_mem (hsame : (mouse.feed stream).2 = events before packets)
    (hpacket : packet ∈ packets) : packet.Slow := by
  obtain ⟨hx, hy⟩ : _ ∧ _ := @mem_events before packet packets hpacket
  rw [← hsame] at hx hy
  constructor
  · by_cases hzero : packet.movementX = 0
    · omega
    · exact feed_rel (hx hzero)
  · by_cases hzero : packet.movementY = 0
    · omega
    · exact feed_rel (hy hzero)

/-- The packets of a basic mouse give its events exactly if all its movements are slow. -/
theorem decodes_iff (htype : mouse.mouseType = .basic) (hstart : mouse.packetLoc = 0)
    (packets : List Packet) :
    (mouse.feed (packets.flatMap Packet.bytes)).2 = events mouse.buttons packets ↔
      ∀ packet ∈ packets, packet.Slow :=
  ⟨fun hsame _ hpacket => slow_of_mem hsame hpacket,
    fun hslow => feed_of_slow hslow htype hstart fun _ _ => rfl⟩

/-- The mouse when `init` has found its type. -/
def basicMouse : Mouse := ⟨.basic, 0, fun _ => 0, fun _ => false⟩

/-- A click, with a movement by 3 and -2. -/
def click : List Packet :=
  [⟨0x29, 3, 0xFE, by decide, by decide⟩, ⟨0x08, 0, 0, by decide, by decide⟩]

theorem decodes_slow : (basicMouse.feed (click.flatMap Packet.bytes)).2 =
    [keyPacket true 0, relPacket 0 3, relPacket 1 (-2), keyPacket false 0] :=
  (decodes_iff rfl rfl click).mpr (by
    intro packet hpacket
    simp only [click, List.mem_cons, List.not_mem_nil, or_false] at hpacket
    rcases hpacket with rfl | rfl <;> exact ⟨by decide, by decide⟩)

/-- A movement by 200. -/
def fast : List Packet := [⟨0x08, 200, 0, by decide, by decide⟩]

/-- It comes out as a movement by -56. -/
theorem not_decodes_fast :
    (basicMouse.feed (fast.flatMap Packet.bytes)).2 = [relPacket 0 (-56)] ∧
      events basicMouse.buttons fast = [relPacket 0 200] ∧
      (basicMouse.feed (fast.flatMap Packet.bytes)).2 ≠ events basicMouse.buttons fast := by
  decide

end PKernel.Ps2
