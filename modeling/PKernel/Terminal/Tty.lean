import Mathlib.Logic.Function.Basic
import PKernel.Library.WaitQueue
import PKernel.Machine

/-! # Terminals

`tty.c`, for one terminal and the threads that read from it. Interrupts are off in a call up
to its end or to the `scheduler_await` of `tty_read`, which does not look at `buffer_ready`
again.
-/

namespace PKernel.Terminal

open Library

/-- `TTY_BUFFER_SIZE`. -/
def ttyBufferSize : Nat := pageSize

def backspace : UInt8 := 0x08
def lineFeed : UInt8 := 0x0a
def carriageReturn : UInt8 := 0x0d

/-- The fields of `tty_t` that `tty_read` and `tty_provide_char` use. Of the buffer only the
bytes below the capacity are mapped. -/
structure Tty where
  readReady : WaitQueue Nat
  bufferReady : Bool
  bufferSize : Nat
  bufferCapacity : Nat
  bufferOffset : Nat
  buffer : Nat → UInt8
  lastChar : UInt8
  echo : Bool

/-- What a thread does: it is outside `tty_read`, sleeps in it, or was woken. -/
inductive Reader where
  | free
  | asleep (size : Nat)
  | woken (size : Nat)
deriving DecidableEq, Repr

structure Console where
  tty : Tty
  /-- The bytes that `write_handler` was given. -/
  output : List UInt8
  readers : Nat → Reader

/-- What a call returns, or that its thread went to sleep. -/
inductive Outcome where
  | sleeps
  | done
  | read (data : List UInt8)
deriving DecidableEq, Repr

/-- `tty_init`, in memory that holds a buffer offset, which it does not set, and a buffer. -/
def ttyInit (bufferOffset : Nat) (buffer : Nat → UInt8) : Console where
  tty :=
    { readReady := .empty
      bufferReady := false
      bufferSize := 0
      bufferCapacity := ttyBufferSize
      bufferOffset
      buffer
      lastChar := 0
      echo := true }
  output := []
  readers _ := .free

namespace Console

/-- A call of `write_handler`. -/
def write (console : Console) (data : List UInt8) : Console :=
  { console with output := console.output ++ data }

/-- The echo of `tty_provide_char`. -/
def echo (console : Console) (char : UInt8) : Console :=
  if console.tty.echo then
    if char = backspace then
      if console.tty.bufferSize > 0 then console.write [backspace, 0x20, backspace] else console
    else if char = lineFeed ∨ char = carriageReturn then
      console.write [carriageReturn, lineFeed]
    else if console.tty.bufferSize < console.tty.bufferCapacity then console.write [char]
    else console
  else console

/-- `buffer[buffer_size++] = char`. -/
def store (console : Console) (char : UInt8) : Except Fault Console :=
  let tty := console.tty
  if tty.bufferSize < tty.bufferCapacity then
    .ok { console with
      tty := { tty with
        buffer := Function.update tty.buffer tty.bufferSize char
        bufferSize := tty.bufferSize + 1 } }
  else .error .badPointer

/-- `event_invoke(tty->read_ready)`. -/
def invoke (console : Console) : Console :=
  let (woken, readReady) := console.tty.readReady.invoke
  let console := { console with tty := { console.tty with readReady } }
  match woken with
  | none => console
  | some thread =>
      match console.readers thread with
      | .asleep size =>
          { console with readers := Function.update console.readers thread (.woken size) }
      | _ => console

/-- A line ends: its newline is stored, and a reader is woken. -/
def endLine (console : Console) : Except Fault Console := do
  let console := { console with tty := { console.tty with bufferReady := true } }
  let console ← console.store lineFeed
  return console.invoke

/-- The `switch` of `tty_provide_char`. -/
def enter (console : Console) (char : UInt8) : Except Fault Console :=
  let tty := console.tty
  if char = backspace then
    if tty.bufferSize > 0 then
      .ok { console with tty := { tty with bufferSize := tty.bufferSize - 1 } }
    else .ok console
  else if char = carriageReturn then
    if tty.lastChar ≠ lineFeed then console.endLine else .ok console
  else if char = lineFeed then
    if tty.lastChar ≠ carriageReturn then console.endLine else .ok console
  else if tty.bufferSize < tty.bufferCapacity then console.store char
  else .ok console

end Console

/-- `tty_provide_char`. -/
def ttyProvideChar (console : Console) (char : UInt8) : Except Fault Console := do
  let console ← (console.echo char).enter char
  return { console with tty := { console.tty with lastChar := char } }

/-- The bytes of the buffer between two offsets. -/
def Tty.bytes (tty : Tty) (start stop : Nat) : List UInt8 :=
  (List.range' start (stop - start)).map tty.buffer

/-- `tty_read` behind its `scheduler_await`. -/
def readRest (console : Console) (size : Nat) : Except Fault (Outcome × Console) := do
  let tty := console.tty
  let amnt := if size > tty.bufferSize then tty.bufferSize else size
  if tty.bufferOffset + amnt > tty.bufferCapacity then .error .badPointer
  let data := tty.bytes tty.bufferOffset (tty.bufferOffset + amnt)
  let tty := { tty with bufferOffset := tty.bufferOffset + amnt }
  let tty :=
    if tty.bufferSize = tty.bufferOffset then
      { tty with bufferReady := false, bufferSize := 0, bufferOffset := 0 }
    else tty
  return (.read data, { console with tty })

/-- `tty_read` by a thread. -/
def ttyRead (console : Console) (thread size : Nat) : Except Fault (Outcome × Console) :=
  if console.tty.bufferReady then readRest console size
  else
    let (sleeps, readReady) := console.tty.readReady.await thread
    let console := { console with tty := { console.tty with readReady } }
    if sleeps then
      .ok (.sleeps, { console with readers := Function.update console.readers thread (.asleep size) })
    else readRest console size

/-! ## Steps -/

/-- What may happen next: a character comes in, a thread reads, or a woken reader goes on. -/
inductive Op where
  | provide (char : UInt8)
  | read (thread size : Nat)
  | resume (thread : Nat)
deriving DecidableEq, Repr

def Op.perform (console : Console) : Op → Except Fault (Outcome × Console)
  | provide char => do return (.done, ← ttyProvideChar console char)
  | read thread size => ttyRead console thread size
  | resume thread =>
      match console.readers thread with
      | .woken size =>
          readRest { console with readers := Function.update console.readers thread .free } size
      | _ => .ok (.sleeps, console)

/-- The thread of a call is not in another, and a thread that goes on was woken. -/
def Op.Possible (console : Console) : Op → Prop
  | provide _ => True
  | read thread _ => console.readers thread = .free
  | resume thread => ∃ size, console.readers thread = .woken size

end PKernel.Terminal
