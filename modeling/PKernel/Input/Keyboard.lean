import PKernel.Input.Device

/-! # The keyboard, and the device that it shares with the mouse

`keyboard_handler` gets the bytes of the keyboard one by one. Its packets, and those of the mouse,
go to one input device, in the order of the interrupts, and reads take them out.
-/

namespace PKernel.Ps2

/-! ## The keyboard -/

/-- `awaiting_extra_keycode` and `key_release`. -/
structure Keyboard where
  awaitingExtraKeycode : Bool
  keyRelease : Bool

/-- The keyboard when the module is loaded. -/
def idleKeyboard : Keyboard := ⟨false, false⟩

/-- The packet of a key. -/
def strokePacket (keyRelease : Bool) (keycode : UInt16) : InputPacket :=
  ⟨itKey, 8, .key (if keyRelease then 1 else 0) keycode.toNat⟩

/-- `keyboard_handler` with `keycode_lut` and the byte that it reads, and the packets that it
provides. -/
def keyboardHandler (keycodeLut : Nat → UInt16) (keyboard : Keyboard) (data : UInt8) :
    Keyboard × List InputPacket :=
  if data = 0xE0 then ({ keyboard with awaitingExtraKeycode := true }, [])
  else if data = 0xF0 then ({ keyboard with keyRelease := true }, [])
  else
    let keycode :=
      if keyboard.awaitingExtraKeycode then keycodeLut (data.toNat + 256)
      else keycodeLut data.toNat
    (idleKeyboard, [strokePacket keyboard.keyRelease keycode])

/-- A key goes down or up. -/
structure Stroke where
  extended : Bool
  released : Bool
  code : UInt8
  plain : code ≠ 0xE0 ∧ code ≠ 0xF0

namespace Stroke

/-- What the keyboard sends. -/
def bytes (stroke : Stroke) : List UInt8 :=
  (if stroke.extended then [0xE0] else []) ++ (if stroke.released then [0xF0] else []) ++ [stroke.code]

def packet (keycodeLut : Nat → UInt16) (stroke : Stroke) : InputPacket :=
  strokePacket stroke.released
    (keycodeLut (if stroke.extended then stroke.code.toNat + 256 else stroke.code.toNat))

end Stroke

/-! ## The device -/

/-- The global variables of the module, with what is behind `device`. -/
structure Input where
  keyboard : Keyboard
  mouse : Mouse
  device : InputDevice

inductive InputEvent where
  | keyboard (data : UInt8)
  | mouse (data : UInt8)
  | read (size : Nat)

/-- What is to be seen of an event: the packets of the keyboard and of the mouse, those of them that
the device took, and the bytes that a read returned. -/
structure Output where
  typed : List InputPacket
  moved : List InputPacket
  taken : List InputPacket
  data : List UInt8

namespace Output

def none : Output := ⟨[], [], [], []⟩

def append (first second : Output) : Output where
  typed := first.typed ++ second.typed
  moved := first.moved ++ second.moved
  taken := first.taken ++ second.taken
  data := first.data ++ second.data

end Output

/-- Packets are provided one after another. -/
def provideAll (device : InputDevice) : List InputPacket → InputDevice × List InputPacket
  | [] => (device, [])
  | packet :: packets =>
      let provided := inputProvidePacket device packet
      let rest := provideAll provided.1 packets
      (rest.1, if provided.2 = 1 then packet :: rest.2 else rest.2)

namespace Input

/-- When `init` has found the type of the mouse. -/
def start (mouse : Mouse) : Input := ⟨idleKeyboard, mouse, inputAddDevice⟩

/-- An interrupt, or a read by a program, which sleeps if there is no packet. -/
def step (keycodeLut : Nat → UInt16) (input : Input) : InputEvent → Input × Output
  | .keyboard data =>
      let handled := keyboardHandler keycodeLut input.keyboard data
      let provided := provideAll input.device handled.2
      ({ input with keyboard := handled.1, device := provided.1 }, ⟨handled.2, [], provided.2, []⟩)
  | .mouse data =>
      let handled := input.mouse.mouseHandler data
      let provided := provideAll input.device handled.2
      ({ input with mouse := handled.1, device := provided.1 }, ⟨[], handled.2, provided.2, []⟩)
  | .read size =>
      match inputRead input.device size with
      | .none => (input, .none)
      | some (device, data) => ({ input with device }, ⟨[], [], [], data⟩)

def run (keycodeLut : Nat → UInt16) (input : Input) : List InputEvent → Input × Output
  | [] => (input, .none)
  | event :: events =>
      let stepped := input.step keycodeLut event
      let rest := stepped.1.run keycodeLut events
      (rest.1, stepped.2.append rest.2)

end Input

/-! ## A queue of packets -/

/-- What the device is for: packets wait in the order in which they came, and those that find 32
others waiting are lost. -/
structure Queue where
  keyboard : Keyboard
  mouse : Mouse
  waiting : List InputPacket

namespace Queue

def provide (queue : Queue) (packets : List InputPacket) : List InputPacket :=
  packets.take (inputBufferSize - queue.waiting.length)

def step (keycodeLut : Nat → UInt16) (queue : Queue) : InputEvent → Queue × Output
  | .keyboard data =>
      let handled := keyboardHandler keycodeLut queue.keyboard data
      let taken := queue.provide handled.2
      ({ queue with keyboard := handled.1, waiting := queue.waiting ++ taken },
        ⟨handled.2, [], taken, []⟩)
  | .mouse data =>
      let handled := queue.mouse.mouseHandler data
      let taken := queue.provide handled.2
      ({ queue with mouse := handled.1, waiting := queue.waiting ++ taken },
        ⟨[], handled.2, taken, []⟩)
  | .read size =>
      match queue.waiting with
      | [] => (queue, .none)
      | packet :: rest =>
          if size < packet.size then (queue, .none)
          else ({ queue with waiting := rest }, ⟨[], [], [], packet.bytes⟩)

def run (keycodeLut : Nat → UInt16) (queue : Queue) : List InputEvent → Queue × Output
  | [] => (queue, .none)
  | event :: events =>
      let stepped := queue.step keycodeLut event
      let rest := stepped.1.run keycodeLut events
      (rest.1, stepped.2.append rest.2)

end Queue

/-- The device is the queue. -/
structure Input.Refines (input : Input) (queue : Queue) : Prop where
  keyboard : input.keyboard = queue.keyboard
  mouse : input.mouse = queue.mouse
  holds : input.device.Holds queue.waiting

section Refinement

variable {input : Input} {queue : Queue}

theorem InputDevice.Holds.length_le {device : InputDevice} {waiting : List InputPacket}
    (hholds : device.Holds waiting) : waiting.length ≤ inputBufferSize := by
  rw [hholds.length, ← hholds.capacity]
  exact hholds.room

theorem InputDevice.Holds.provideAll {device : InputDevice} {waiting packets : List InputPacket}
    (hholds : device.Holds waiting) (hpackets : ∀ packet ∈ packets, packet.WellFormed) :
    (Ps2.provideAll device packets).2 = packets.take (inputBufferSize - waiting.length) ∧
      (Ps2.provideAll device packets).1.Holds
        (waiting ++ packets.take (inputBufferSize - waiting.length)) := by
  induction packets generalizing device waiting with
  | nil =>
      rw [List.take_nil, List.append_nil]
      exact ⟨rfl, hholds⟩
  | cons packet packets ih =>
      obtain ⟨hnext, hreturn⟩ := hholds.provide (hpackets packet List.mem_cons_self)
      obtain ⟨htaken, hlast⟩ := ih hnext fun other hother =>
        hpackets other (List.mem_cons_of_mem _ hother)
      have hroom := hholds.length_le
      simp only [Ps2.provideAll, hreturn, htaken]
      by_cases hfull : waiting.length = inputBufferSize
      · simp only [hfull, if_true, Nat.sub_self, List.take_zero] at hlast ⊢
        exact ⟨if_neg (by decide), hlast⟩
      · have hcount : inputBufferSize - waiting.length =
            inputBufferSize - (waiting ++ [packet]).length + 1 := by
          rw [List.length_append, List.length_singleton]
          omega
        simp only [hfull, if_false, hcount, List.take_succ_cons, if_true] at hlast ⊢
        refine ⟨trivial, ?_⟩
        rwa [List.append_assoc, List.singleton_append] at hlast

theorem keyboardHandler_wellFormed (keycodeLut : Nat → UInt16) (keyboard : Keyboard)
    (data : UInt8) :
    ∀ packet ∈ (keyboardHandler keycodeLut keyboard data).2, packet.WellFormed := by
  unfold keyboardHandler
  split_ifs
  · simp
  · simp
  all_goals
    intro packet hpacket
    obtain rfl := List.mem_singleton.mp hpacket
    refine .key ?_ (UInt16.toNat_lt _)
    split <;> decide

theorem mouseHandler_wellFormed (mouse : Mouse) (data : UInt8) :
    ∀ packet ∈ (mouse.mouseHandler data).2, packet.WellFormed := by
  have hrel : ∀ (mouse : Mouse) (axis place : Nat), axis < 2 ^ 8 →
      ∀ packet ∈ mouse.relPackets axis place, packet.WellFormed := by
    intro mouse axis place haxis packet hpacket
    unfold Mouse.relPackets at hpacket
    split at hpacket
    next =>
      obtain rfl := List.mem_singleton.mp hpacket
      have hchar := char_lt (mouse.packet place)
      exact .rel haxis ⟨by omega, by omega⟩
    next => cases hpacket
  have hkey : ∀ mouse : Mouse, ∀ packet ∈ mouse.keyPackets, packet.WellFormed := by
    intro mouse packet hpacket
    obtain ⟨index, hindex, hsome⟩ := List.mem_filterMap.mp hpacket
    have hindex := List.mem_range.mp hindex
    split at hsome
    next =>
      cases hsome
      refine .key ?_ ?_
      · split <;> decide
      · unfold btnLeft
        omega
    next => cases hsome
  intro packet hpacket
  unfold Mouse.mouseHandler at hpacket
  dsimp only at hpacket
  split_ifs at hpacket
  · cases hpacket
  · cases hpacket
  · simp only [List.mem_append] at hpacket
    rcases hpacket with (hpacket | hpacket) | hpacket
    · exact hkey _ packet hpacket
    · exact hrel _ _ _ (by decide) packet hpacket
    · exact hrel _ _ _ (by decide) packet hpacket
  · cases hpacket

theorem Input.Refines.step (hrefines : input.Refines queue) (keycodeLut : Nat → UInt16)
    (event : InputEvent) :
    (input.step keycodeLut event).1.Refines (queue.step keycodeLut event).1 ∧
      (input.step keycodeLut event).2 = (queue.step keycodeLut event).2 := by
  obtain ⟨hkeyboard, hmouse, hholds⟩ := hrefines
  cases event with
  | keyboard data =>
      obtain ⟨htaken, hnext⟩ := hholds.provideAll
        (keyboardHandler_wellFormed keycodeLut queue.keyboard data)
      simp only [Input.step, Queue.step, hkeyboard, htaken]
      exact ⟨⟨rfl, hmouse, hnext⟩, rfl⟩
  | mouse data =>
      obtain ⟨htaken, hnext⟩ := hholds.provideAll (mouseHandler_wellFormed queue.mouse data)
      simp only [Input.step, Queue.step, hmouse, htaken]
      exact ⟨⟨hkeyboard, rfl, hnext⟩, rfl⟩
  | read size =>
      obtain ⟨hnone, hsome⟩ := hholds.read size
      cases hwaiting : queue.waiting with
      | nil =>
          simp only [Input.step, Queue.step, hnone hwaiting, hwaiting]
          exact ⟨⟨hkeyboard, hmouse, hholds⟩, trivial⟩
      | cons packet rest =>
          obtain ⟨next, hread, hnext⟩ := hsome packet rest hwaiting
          simp only [Input.step, Queue.step, hread, hwaiting]
          split_ifs at hnext ⊢
          · exact ⟨⟨hkeyboard, hmouse, hnext⟩, rfl⟩
          · exact ⟨⟨hkeyboard, hmouse, hnext⟩, rfl⟩

theorem Input.Refines.run (hrefines : input.Refines queue) (keycodeLut : Nat → UInt16)
    (events : List InputEvent) :
    (input.run keycodeLut events).1.Refines (queue.run keycodeLut events).1 ∧
      (input.run keycodeLut events).2 = (queue.run keycodeLut events).2 := by
  induction events generalizing input queue with
  | nil => exact ⟨hrefines, rfl⟩
  | cons event events ih =>
      obtain ⟨hnext, houtput⟩ := hrefines.step keycodeLut event
      obtain ⟨hlast, hrest⟩ := ih hnext
      exact ⟨hlast, congrArg₂ Output.append houtput hrest⟩

end Refinement

/-! ## Runs -/

section Runs

variable {keycodeLut : Nat → UInt16} {queue : Queue}

theorem Queue.step_bytes (queue : Queue) (keycodeLut : Nat → UInt16) (event : InputEvent) :
    (queue.waiting ++ (queue.step keycodeLut event).2.taken).flatMap InputPacket.bytes =
      (queue.step keycodeLut event).2.data ++
        (queue.step keycodeLut event).1.waiting.flatMap InputPacket.bytes := by
  cases event with
  | keyboard data => rfl
  | mouse data => rfl
  | read size =>
      cases hwaiting : queue.waiting with
      | nil => simp [Queue.step, hwaiting, Output.none]
      | cons packet rest =>
          simp only [Queue.step, hwaiting]
          split_ifs
          · simp [hwaiting, Output.none]
          · simp

/-- No byte is lost, and none is read twice. -/
theorem Queue.run_bytes (queue : Queue) (keycodeLut : Nat → UInt16) (events : List InputEvent) :
    (queue.waiting ++ (queue.run keycodeLut events).2.taken).flatMap InputPacket.bytes =
      (queue.run keycodeLut events).2.data ++
        (queue.run keycodeLut events).1.waiting.flatMap InputPacket.bytes := by
  induction events generalizing queue with
  | nil => simp [Queue.run, Output.none]
  | cons event events ih =>
      have hstep := queue.step_bytes keycodeLut event
      have hrest := ih (queue.step keycodeLut event).1
      rw [List.flatMap_append] at hstep hrest
      simp only [Queue.run, Output.append, List.flatMap_append]
      rw [← List.append_assoc, hstep, List.append_assoc, hrest, List.append_assoc]

/-- In whatever order the keyboard, the mouse and programs come, the programs read the packets that
the device took, in order and byte for byte, up to those that are waiting; packets are lost only if
they find 32 others waiting. -/
theorem reads_in_order (keycodeLut : Nat → UInt16) (mouse : Mouse) (events : List InputEvent) :
    ((Input.start mouse).run keycodeLut events).2 =
        (Queue.run keycodeLut ⟨idleKeyboard, mouse, []⟩ events).2 ∧
      ∃ waiting, waiting.length ≤ inputBufferSize ∧
        ((Input.start mouse).run keycodeLut events).1.device.Holds waiting ∧
        ((Input.start mouse).run keycodeLut events).2.taken.flatMap InputPacket.bytes =
          ((Input.start mouse).run keycodeLut events).2.data ++
            waiting.flatMap InputPacket.bytes := by
  have hstart : (Input.start mouse).Refines ⟨idleKeyboard, mouse, []⟩ :=
    ⟨rfl, rfl, inputAddDevice_holds⟩
  obtain ⟨hlast, houtput⟩ := hstart.run keycodeLut events
  refine ⟨houtput, _, hlast.holds.length_le, hlast.holds, ?_⟩
  rw [houtput]
  exact Queue.run_bytes ⟨idleKeyboard, mouse, []⟩ keycodeLut events

/-- The bytes that the keyboard sent. -/
def keyboardBytes (events : List InputEvent) : List UInt8 :=
  events.filterMap fun event =>
    match event with
    | .keyboard data => some data
    | _ => none

/-- The bytes that the mouse sent. -/
def mouseBytes (events : List InputEvent) : List UInt8 :=
  events.filterMap fun event =>
    match event with
    | .mouse data => some data
    | _ => none

/-- The bytes of a keyboard, one after the other. -/
def Keyboard.feed (keycodeLut : Nat → UInt16) (keyboard : Keyboard) :
    List UInt8 → Keyboard × List InputPacket
  | [] => (keyboard, [])
  | data :: stream =>
      let handled := keyboardHandler keycodeLut keyboard data
      let fed := handled.1.feed keycodeLut stream
      (fed.1, handled.2 ++ fed.2)

/-- The keyboard and the mouse do not get in the way of each other. -/
theorem run_typed_moved (input : Input) (keycodeLut : Nat → UInt16) (events : List InputEvent) :
    (input.run keycodeLut events).2.typed =
        (input.keyboard.feed keycodeLut (keyboardBytes events)).2 ∧
      (input.run keycodeLut events).2.moved = (input.mouse.feed (mouseBytes events)).2 := by
  induction events generalizing input with
  | nil => exact ⟨rfl, rfl⟩
  | cons event events ih =>
      obtain ⟨htyped, hmoved⟩ := ih (input.step keycodeLut event).1
      simp only [Input.run, Output.append, htyped, hmoved]
      cases event with
      | keyboard data => exact ⟨rfl, rfl⟩
      | mouse data => exact ⟨rfl, rfl⟩
      | read size =>
          have hsame : (input.step keycodeLut (.read size)).1.keyboard = input.keyboard ∧
              (input.step keycodeLut (.read size)).1.mouse = input.mouse ∧
              (input.step keycodeLut (.read size)).2.typed = [] ∧
              (input.step keycodeLut (.read size)).2.moved = [] := by
            cases hread : inputRead input.device size <;>
              simp [Input.step, hread, Output.none]
          rw [hsame.1, hsame.2.1, hsame.2.2.1, hsame.2.2.2]
          exact ⟨rfl, rfl⟩

theorem feed_append (keyboard : Keyboard) (first second : List UInt8) :
    keyboard.feed keycodeLut (first ++ second) =
      (((keyboard.feed keycodeLut first).1.feed keycodeLut second).1,
        (keyboard.feed keycodeLut first).2 ++
          ((keyboard.feed keycodeLut first).1.feed keycodeLut second).2) := by
  induction first generalizing keyboard with
  | nil => rfl
  | cons data first ih => simp [Keyboard.feed, ih]

theorem feed_stroke (stroke : Stroke) :
    idleKeyboard.feed keycodeLut stroke.bytes = (idleKeyboard, [stroke.packet keycodeLut]) := by
  obtain ⟨extended, released, code, hextra, hrelease⟩ := stroke
  cases extended <;> cases released <;>
    simp [Stroke.bytes, Keyboard.feed, keyboardHandler, hextra, hrelease, Stroke.packet,
      idleKeyboard]

theorem feed_strokes (strokes : List Stroke) :
    idleKeyboard.feed keycodeLut (strokes.flatMap Stroke.bytes) =
      (idleKeyboard, strokes.map (Stroke.packet keycodeLut)) := by
  induction strokes with
  | nil => rfl
  | cons stroke strokes ih =>
      rw [List.flatMap_cons, feed_append, feed_stroke, ih]
      rfl

/-- Keys and movements are told apart and decoded, however the interrupts of the keyboard, those of
the mouse and reads are mixed. -/
theorem decodes_mixed (keycodeLut : Nat → UInt16) {mouse : Mouse} (htype : mouse.mouseType = .basic)
    (hstart : mouse.packetLoc = 0) {strokes : List Stroke} {packets : List Packet}
    (hslow : ∀ packet ∈ packets, packet.Slow) {events : List InputEvent}
    (hkeyboard : keyboardBytes events = strokes.flatMap Stroke.bytes)
    (hmouse : mouseBytes events = packets.flatMap Packet.bytes) :
    ((Input.start mouse).run keycodeLut events).2.typed =
        strokes.map (Stroke.packet keycodeLut) ∧
      ((Input.start mouse).run keycodeLut events).2.moved =
        Ps2.events mouse.buttons packets := by
  obtain ⟨htyped, hmoved⟩ := run_typed_moved (Input.start mouse) keycodeLut events
  rw [htyped, hmoved, hkeyboard, hmouse]
  refine ⟨congrArg Prod.snd (feed_strokes strokes), ?_⟩
  exact feed_of_slow hslow htype hstart fun _ _ => rfl

/-- An extended key goes up while the mouse is moved by 3 and -2, and a program reads. -/
def mixed : List InputEvent :=
  [.keyboard 0xE0, .mouse 0x28, .keyboard 0xF0, .mouse 3, .read 16, .keyboard 0x4B, .mouse 0xFE]

theorem decodes_mixed_release :
    ((Input.start basicMouse).run (fun code => UInt16.ofNat code) mixed).2.typed =
        [strokePacket true 0x14B] ∧
      ((Input.start basicMouse).run (fun code => UInt16.ofNat code) mixed).2.moved =
        [relPacket 0 3, relPacket 1 (-2)] := by
  have hslow : ∀ packet ∈ [(⟨0x28, 3, 0xFE, by decide, by decide⟩ : Packet)], packet.Slow := by
    intro packet hpacket
    obtain rfl := List.mem_singleton.mp hpacket
    exact ⟨by decide, by decide⟩
  have hkeyboard : keyboardBytes mixed =
      [(⟨true, true, 0x4B, by decide⟩ : Stroke)].flatMap Stroke.bytes := rfl
  have hmouse : mouseBytes mixed =
      [(⟨0x28, 3, 0xFE, by decide, by decide⟩ : Packet)].flatMap Packet.bytes := rfl
  exact decodes_mixed _ rfl rfl hslow hkeyboard hmouse

end Runs

end PKernel.Ps2
