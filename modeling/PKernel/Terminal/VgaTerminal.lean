import PKernel.Library.Painting
import PKernel.Terminal.Tty

/-! # The terminal on the screen

`vga_terminal.c` and `update.c`. Text goes to a ring of 50 lines of 40 characters, of which the 25
latest ones are drawn from the bottom of the screen up.
-/

namespace PKernel.VgaTerminal

open Library.Painting
open Terminal (backspace lineFeed carriageReturn)

/-! ## The code -/

/-- `WINDOW_WIDTH`. -/
def windowWidth : Nat := 320 / 8

/-- `WINDOW_HEIGHT`. -/
def windowHeight : Nat := 200 / 8

/-- `BUFFER_HEIGHT`. -/
def bufferHeight : Nat := 50

/-- The tables of `font.c`: eight rows of eight bits for each character. -/
structure Font where
  fontBasic : Nat → Nat → UInt8
  fontNotFound : Nat → UInt8

def fontLookup (font : Font) (c : UInt8) : Nat → UInt8 :=
  if c.toNat < 128 then font.fontBasic c.toNat else font.fontNotFound

structure Vga where
  frameBuffer : Nat → UInt8
  bound : Bool
  cursorOn : Bool
  curX : Nat
  curY : Nat
  viewY : Nat
  bufferStart : Nat
  /-- `console_buffer_t`, whose first index is the column. -/
  consoleBuffer : Nat → Nat → UInt8

def clearRect (frameBuffer : Nat → UInt8) (left top w h : Nat) : Nat → UInt8 :=
  (List.range' left w).foldl (fun frameBuffer x => (List.range' top h).foldl (fun frameBuffer y =>
    Function.update frameBuffer (y * 320 + x) 0x00) frameBuffer) frameBuffer

/-- A bit of a bitmap whose rows are bytes. -/
def bitmapBit (bitmap : Nat → UInt8) (byteWidth x y : Nat) : Bool :=
  (bitmap (y * byteWidth + x / 8)).toNat.testBit x

def drawBitmap (frameBuffer : Nat → UInt8) (bitmap : Nat → UInt8) (left top w h : Nat) :
    Nat → UInt8 :=
  (List.range h).foldl (fun frameBuffer y => (List.range w).foldl (fun frameBuffer x =>
    Function.update frameBuffer ((top + y) * 320 + left + x)
      (if bitmapBit bitmap (w / 8) x y then 0x0F else 0x00)) frameBuffer) frameBuffer

def drawBitmapTransparent (frameBuffer : Nat → UInt8) (bitmap : Nat → UInt8)
    (left top w h : Nat) : Nat → UInt8 :=
  (List.range h).foldl (fun frameBuffer y => (List.range w).foldl (fun frameBuffer x =>
    if bitmapBit bitmap (w / 8) x y then
      Function.update frameBuffer ((top + y) * 320 + left + x) 0x0F
    else frameBuffer) frameBuffer) frameBuffer

/-- Whether a line of the buffer is drawn. -/
def lineShown (vga : Vga) (bufferY : Nat) : Prop :=
  (bufferY < vga.bufferStart ∧ ((bufferY ≤ vga.viewY ∧ bufferY ≤ vga.bufferStart) ∨
    (vga.viewY ≤ bufferY ∧ vga.bufferStart ≤ bufferY))) ∨ vga.bufferStart < bufferY

instance (vga : Vga) (bufferY : Nat) : Decidable (lineShown vga bufferY) := by
  unfold lineShown
  infer_instance

/-- One character of a line, and the cursor. -/
def drawCharacter (font : Font) (vga : Vga) (y bufferY : Nat) (frameBuffer : Nat → UInt8)
    (x : Nat) : Nat → UInt8 :=
  let fontChar := fontLookup font (vga.consoleBuffer x bufferY)
  let drawn := drawBitmap frameBuffer fontChar (x * 8) ((windowHeight - y - 1) * 8) 8 8
  if vga.curX = x ∧ vga.curY = bufferY ∧ vga.cursorOn then
    drawBitmapTransparent drawn (fontLookup font '_'.toUInt8) (x * 8)
      ((windowHeight - y - 1) * 8) 8 8
  else drawn

/-- One line, which is `view_y - y` around the ring. -/
def drawLine (font : Font) (vga : Vga) (frameBuffer : Nat → UInt8) (y : Nat) : Nat → UInt8 :=
  let bufferY := (vga.viewY + bufferHeight - y) % bufferHeight
  if lineShown vga bufferY then
    (List.range windowWidth).foldl (drawCharacter font vga y bufferY) frameBuffer
  else clearRect frameBuffer 0 ((windowHeight - y - 1) * 8) (windowWidth * 8) 8

def terminalUpdate (font : Font) (vga : Vga) : Vga :=
  if vga.bound then
    { vga with
      frameBuffer := (List.range windowHeight).foldl (drawLine font vga) vga.frameBuffer }
  else vga

/-- `CONSOLE_BUFFER[x][y] = c`. -/
def setConsole (consoleBuffer : Nat → Nat → UInt8) (x y : Nat) (c : UInt8) : Nat → Nat → UInt8 :=
  Function.update consoleBuffer x (Function.update (consoleBuffer x) y c)

/-- The body of the loop in `write`. -/
def writeChar (vga : Vga) (c : UInt8) : Vga :=
  if c = lineFeed then
    let curY := (vga.curY + 1) % bufferHeight
    let vga := { vga with curY, curX := 0 }
    let vga :=
      if curY = vga.bufferStart then
        { vga with
          consoleBuffer := (List.range windowWidth).foldl
            (fun console j => setConsole console j vga.bufferStart ' '.toUInt8) vga.consoleBuffer
          bufferStart := (vga.bufferStart + 1) % bufferHeight }
      else vga
    { vga with viewY := vga.curY }
  else if c = carriageReturn then { vga with curX := 0 }
  -- `cur_x - 1 + WINDOW_WIDTH` is computed as an `int`
  else if c = backspace then { vga with curX := (vga.curX + windowWidth - 1) % windowWidth }
  else
    let vga :=
      if vga.curX < windowWidth then
        { vga with
          consoleBuffer := setConsole vga.consoleBuffer vga.curX vga.curY c
          curX := vga.curX + 1 }
      else vga
    { vga with viewY := vga.curY }

def write (font : Font) (vga : Vga) (buffer : List UInt8) : Vga :=
  let vga := if 0 < buffer.length then { vga with cursorOn := true } else vga
  terminalUpdate font (buffer.foldl writeChar vga)

def timerHandler (font : Font) (vga : Vga) : Vga :=
  terminalUpdate font { vga with cursorOn := !vga.cursorOn }

/-- `SYSFS_BIND`. -/
def sysfsBind : Nat := 0

/-- `sysfs_write`, which does not look at the offset, and what it returns. -/
def sysfsWrite (font : Font) (vga : Vga) (id : Nat) (data : List UInt8) : Vga × Nat :=
  if id = sysfsBind ∧ data.length = 1 then
    if data.head? = some '1'.toUInt8 then (terminalUpdate font { vga with bound := true }, 1)
    else if data.head? = some '0'.toUInt8 then ({ vga with bound := false }, 1)
    else (vga, 0)
  else (vga, 0)

/-- `init`, with the frame buffer as it was. -/
def init (frameBuffer : Nat → UInt8) : Vga where
  frameBuffer := frameBuffer
  bound := true
  cursorOn := true
  curX := 0
  curY := 0
  viewY := 0
  bufferStart := 1
  consoleBuffer _ _ := 0

end PKernel.VgaTerminal
