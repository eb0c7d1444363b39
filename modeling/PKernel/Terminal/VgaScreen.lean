import PKernel.Terminal.VgaTerminal

/-! # What the screen shows

The lines that were written, latest first, without an end, and the picture that they make. The ring
of lines, the cursor and the loops of the code keep that picture on the screen.
-/

namespace PKernel.VgaTerminal

open Library.Painting
open Terminal (backspace lineFeed carriageReturn)

/-! ## Text -/

/-- The lines from the current one up, and the column of the cursor. -/
structure Scroll where
  above : Nat → Nat → UInt8
  column : Nat

namespace Scroll

def start : Scroll := ⟨fun _ _ => 0, 0⟩

/-- A new line at the bottom. -/
def newLine (scroll : Scroll) : Scroll where
  above y := if y = 0 then fun _ => ' '.toUInt8 else scroll.above (y - 1)
  column := 0

/-- A character at the cursor. What does not fit on the line is lost. -/
def append (scroll : Scroll) (c : UInt8) : Scroll :=
  if scroll.column < windowWidth then
    { above := Function.update scroll.above 0 (Function.update (scroll.above 0) scroll.column c)
      column := scroll.column + 1 }
  else scroll

/-- A backspace moves the cursor only, from the first column to the last one. -/
def put (scroll : Scroll) (c : UInt8) : Scroll :=
  if c = lineFeed then scroll.newLine
  else if c = carriageReturn then { scroll with column := 0 }
  else if c = backspace then
    { scroll with column := (scroll.column + windowWidth - 1) % windowWidth }
  else scroll.append c

end Scroll

/-- The screen has 320 times 200 pixels, line by line. -/
def pixels : Nat := 64000

/-- The picture of a text: characters of eight by eight pixels, and a cursor. -/
def picture (font : Font) (scroll : Scroll) (cursorOn : Bool) (spot : Nat) : UInt8 :=
  let row := spot / 320
  let line := windowHeight - 1 - row / 8
  let column := spot % 320 / 8
  let lit := fun c => bitmapBit (fontLookup font c) 1 (spot % 320 % 8) (row % 8)
  if lit (scroll.above line column) ∨
      (scroll.column = column ∧ line = 0 ∧ cursorOn ∧ lit '_'.toUInt8) then 0x0F else 0x00

/-! ## Drawing a character -/

section Character

variable {frameBuffer : Nat → UInt8} {bitmap : Nat → UInt8}

/-- The pixel of a character at a place in it. -/
def cellPixel (x row : Nat) (bit : Nat × Nat) : Nat := (row * 8 + bit.1) * 320 + x * 8 + bit.2

theorem drawBitmap_eq_paint {left top w h : Nat} :
    drawBitmap frameBuffer bitmap left top w h =
      paint (fun bit => (top + bit.1) * 320 + left + bit.2)
        (fun bit _ => if bitmapBit bitmap (w / 8) bit.2 bit.1 then 0x0F else 0x00)
        (List.range h ×ˢ List.range w) frameBuffer := by
  rw [← foldl_foldl_eq_paint]
  rfl

theorem drawBitmapTransparent_eq_paint {left top w h : Nat} :
    drawBitmapTransparent frameBuffer bitmap left top w h =
      paint (fun bit => (top + bit.1) * 320 + left + bit.2)
        (fun bit old => if bitmapBit bitmap (w / 8) bit.2 bit.1 then 0x0F else old)
        (List.range h ×ˢ List.range w) frameBuffer := by
  have hstep : ∀ (frameBuffer : Nat → UInt8) (x y spot : Nat),
      (if bitmapBit bitmap (w / 8) x y then Function.update frameBuffer spot 0x0F else frameBuffer) =
        Function.update frameBuffer spot
          (if bitmapBit bitmap (w / 8) x y then 0x0F else frameBuffer spot) := by
    intro frameBuffer x y spot
    split
    · rfl
    · exact (Function.update_eq_self _ _).symm
  rw [← foldl_foldl_eq_paint]
  simp only [drawBitmapTransparent, hstep]

theorem cellPixel_inj {x row : Nat} {bit other : Nat × Nat} (hbit : bit.2 < 8) (hother : other.2 < 8)
    (hsame : cellPixel x row bit = cellPixel x row other) : bit = other := by
  unfold cellPixel at hsame
  exact Prod.ext (by omega) (by omega)

/-- Eight by eight pixels are painted, and no other ones. -/
theorem paint_cell {change : Nat × Nat → UInt8 → UInt8} {x row spot : Nat} (hx : x < windowWidth) :
    paint (cellPixel x row) change (List.range 8 ×ˢ List.range 8) frameBuffer spot =
      if spot / 320 / 8 = row ∧ spot % 320 / 8 = x then
        change (spot / 320 % 8, spot % 320 % 8) (frameBuffer spot)
      else frameBuffer spot := by
  have hbits : ∀ bit ∈ List.range 8 ×ˢ List.range 8, bit.1 < 8 ∧ bit.2 < 8 := by
    intro bit hbit
    obtain ⟨hfirst, hsecond⟩ := List.pair_mem_product.mp hbit
    exact ⟨List.mem_range.mp hfirst, List.mem_range.mp hsecond⟩
  split
  next hcell =>
    have hspot : cellPixel x row (spot / 320 % 8, spot % 320 % 8) = spot := by
      unfold cellPixel
      omega
    have hmem : (spot / 320 % 8, spot % 320 % 8) ∈ List.range 8 ×ˢ List.range 8 :=
      List.pair_mem_product.mpr
        ⟨List.mem_range.mpr (Nat.mod_lt _ (by decide)), List.mem_range.mpr (Nat.mod_lt _ (by decide))⟩
    have hpaint : paint (cellPixel x row) change (List.range 8 ×ˢ List.range 8) frameBuffer
        (cellPixel x row (spot / 320 % 8, spot % 320 % 8)) =
          change (spot / 320 % 8, spot % 320 % 8)
            (frameBuffer (cellPixel x row (spot / 320 % 8, spot % 320 % 8))) :=
      paint_of_mem (List.nodup_range.product List.nodup_range) (fun bit hbit other hother =>
        cellPixel_inj (hbits bit hbit).2 (hbits other hother).2) hmem
    rwa [hspot] at hpaint
  next hcell =>
    refine paint_of_forall_ne fun bit hbit hsame => hcell ?_
    have := hbits bit hbit
    unfold cellPixel at hsame
    unfold windowWidth at hx
    omega

theorem drawBitmap_cell {x row spot : Nat} (hx : x < windowWidth) :
    drawBitmap frameBuffer bitmap (x * 8) (row * 8) 8 8 spot =
      if spot / 320 / 8 = row ∧ spot % 320 / 8 = x then
        if bitmapBit bitmap 1 (spot % 320 % 8) (spot / 320 % 8) then 0x0F else 0x00
      else frameBuffer spot := by
  rw [drawBitmap_eq_paint]
  exact paint_cell hx

theorem drawBitmapTransparent_cell {x row spot : Nat} (hx : x < windowWidth) :
    drawBitmapTransparent frameBuffer bitmap (x * 8) (row * 8) 8 8 spot =
      if spot / 320 / 8 = row ∧ spot % 320 / 8 = x then
        if bitmapBit bitmap 1 (spot % 320 % 8) (spot / 320 % 8) then 0x0F else frameBuffer spot
      else frameBuffer spot := by
  rw [drawBitmapTransparent_eq_paint]
  exact paint_cell hx

end Character

/-! ## Drawing the lines -/

/-- The terminal holds a text: the latest 50 lines of it. -/
structure Shows (vga : Vga) (scroll : Scroll) : Prop where
  column : vga.curX = scroll.column
  columns : scroll.column ≤ windowWidth
  line : vga.curY < bufferHeight
  view : vga.viewY = vga.curY
  start : vga.bufferStart = (vga.curY + 1) % bufferHeight
  console : ∀ y < bufferHeight, ∀ x < windowWidth,
    vga.consoleBuffer x ((vga.curY + bufferHeight - y) % bufferHeight) = scroll.above y x

/-- The rest of the terminal does not count. -/
theorem Shows.congr {vga next : Vga} {scroll : Scroll} (hshows : Shows vga scroll)
    (hcurX : next.curX = vga.curX) (hcurY : next.curY = vga.curY) (hviewY : next.viewY = vga.viewY)
    (hstart : next.bufferStart = vga.bufferStart)
    (hconsole : next.consoleBuffer = vga.consoleBuffer) : Shows next scroll where
  column := hcurX.trans hshows.column
  columns := hshows.columns
  line := hcurY ▸ hshows.line
  view := by rw [hviewY, hcurY, hshows.view]
  start := by rw [hstart, hcurY, hshows.start]
  console := by
    rw [hconsole, hcurY]
    exact hshows.console

section Update

variable {font : Font} {vga : Vga} {scroll : Scroll}

/-- Each of the lines is one that was written or is still empty. -/
theorem Shows.lineShown (hshows : Shows vga scroll) {y : Nat} (hy : y < windowHeight) :
    lineShown vga ((vga.viewY + bufferHeight - y) % bufferHeight) := by
  have hline := hshows.line
  unfold VgaTerminal.lineShown
  rw [hshows.view, hshows.start]
  unfold windowHeight at hy
  unfold bufferHeight at hline ⊢
  omega

theorem Shows.drawCharacter_eq (hshows : Shows vga scroll) {frameBuffer : Nat → UInt8}
    {x y spot : Nat} (hx : x < windowWidth) (hy : y < windowHeight) :
    drawCharacter font vga y ((vga.viewY + bufferHeight - y) % bufferHeight) frameBuffer x spot =
      if spot / 320 / 8 = windowHeight - y - 1 ∧ spot % 320 / 8 = x then
        picture font scroll vga.cursorOn spot
      else frameBuffer spot := by
  have hline := hshows.line
  have hbuffer : vga.curY = (vga.viewY + bufferHeight - y) % bufferHeight ↔ y = 0 := by
    rw [hshows.view]
    unfold windowHeight at hy
    unfold bufferHeight at hline ⊢
    omega
  have hconsole := hshows.console y (Nat.lt_trans hy (by decide)) x hx
  rw [← hshows.view] at hconsole
  simp only [drawCharacter, hconsole, hbuffer, hshows.column]
  by_cases hcell : spot / 320 / 8 = windowHeight - y - 1 ∧ spot % 320 / 8 = x
  · have hy' : windowHeight - 1 - spot / 320 / 8 = y := by
      rw [hcell.1]
      unfold windowHeight at hy ⊢
      omega
    rw [if_pos hcell]
    simp only [picture, hy', hcell.2]
    split
    next hcursor =>
      rw [drawBitmapTransparent_cell hx, if_pos hcell, drawBitmap_cell hx, if_pos hcell]
      simp only [hcursor, true_and]
      by_cases hunderscore :
        bitmapBit (fontLookup font '_'.toUInt8) 1 (spot % 320 % 8) (spot / 320 % 8) = true
      · rw [if_pos hunderscore, if_pos (.inr hunderscore)]
      · simp only [hunderscore, or_false, if_false, Bool.false_eq_true]
    next hcursor =>
      have hnone : ∀ p : Prop, ¬ (scroll.column = x ∧ y = 0 ∧ vga.cursorOn = true ∧ p) :=
        fun p hall => hcursor ⟨hall.1, hall.2.1, hall.2.2.1⟩
      rw [drawBitmap_cell hx, if_pos hcell]
      simp only [hnone, or_false]
  · rw [if_neg hcell]
    split
    · rw [drawBitmapTransparent_cell hx, if_neg hcell, drawBitmap_cell hx, if_neg hcell]
    · rw [drawBitmap_cell hx, if_neg hcell]

/-- One line of the screen is drawn. -/
theorem Shows.drawLine_eq (hshows : Shows vga scroll) {frameBuffer : Nat → UInt8} {y spot : Nat}
    (hy : y < windowHeight) : drawLine font vga frameBuffer y spot =
      if spot / 320 / 8 = windowHeight - y - 1 then picture font scroll vga.cursorOn spot
      else frameBuffer spot := by
  have hcolumn : spot % 320 / 8 ∈ List.range windowWidth := by
    rw [List.mem_range]
    unfold windowWidth
    omega
  obtain ⟨hset, hkept⟩ := @foldl_of_hit Nat UInt8 Nat (List.range windowWidth) frameBuffer
    (drawCharacter font vga y ((vga.viewY + bufferHeight - y) % bufferHeight))
    (fun x spot => spot / 320 / 8 = windowHeight - y - 1 ∧ spot % 320 / 8 = x)
    (picture font scroll vga.cursorOn)
    (fun x hx picture spot hcell => by
      rw [hshows.drawCharacter_eq (List.mem_range.mp hx) hy, if_pos hcell])
    (fun x hx picture spot hcell => by
      rw [hshows.drawCharacter_eq (List.mem_range.mp hx) hy, if_neg hcell]) spot
  rw [drawLine, if_pos (hshows.lineShown hy)]
  split
  next hrow => exact hset ⟨_, hcolumn, hrow, rfl⟩
  next hrow => exact hkept fun _ _ hcell => hrow hcell.1

/-- The picture of the text is on the screen, and nothing outside of the screen has changed. -/
theorem Shows.terminalUpdate_eq (hshows : Shows vga scroll) (hbound : vga.bound = true)
    (spot : Nat) : (terminalUpdate font vga).frameBuffer spot =
      if spot < pixels then picture font scroll vga.cursorOn spot else vga.frameBuffer spot := by
  obtain ⟨hset, hkept⟩ := @foldl_of_hit Nat UInt8 Nat (List.range windowHeight) vga.frameBuffer
    (drawLine font vga) (fun y spot => spot / 320 / 8 = windowHeight - y - 1)
    (picture font scroll vga.cursorOn)
    (fun y hy picture spot hrow => by rw [hshows.drawLine_eq (List.mem_range.mp hy), if_pos hrow])
    (fun y hy picture spot hrow => by rw [hshows.drawLine_eq (List.mem_range.mp hy), if_neg hrow])
    spot
  rw [terminalUpdate, if_pos hbound]
  unfold pixels
  unfold windowHeight at hset hkept
  split
  next hspot =>
    refine hset ⟨24 - spot / 320 / 8, List.mem_range.mpr (by omega), by omega⟩
  next hspot =>
    refine hkept fun y hy hrow => ?_
    have := List.mem_range.mp hy
    omega

end Update

/-! ## Writing -/

theorem setConsole_apply (console : Nat → Nat → UInt8) (x y : Nat) (c : UInt8) (column line : Nat) :
    setConsole console x y c column line =
      if column = x ∧ line = y then c else console column line := by
  unfold setConsole
  by_cases hcolumn : column = x
  · subst hcolumn
    rw [Function.update_self]
    by_cases hline : line = y <;> simp [hline]
  · simp [hcolumn]

/-- A line is cleared. -/
theorem foldl_setConsole (console : Nat → Nat → UInt8) (count y : Nat) (c : UInt8)
    (column line : Nat) :
    (List.range count).foldl (fun console j => setConsole console j y c) console column line =
      if column < count ∧ line = y then c else console column line := by
  induction count with
  | zero => simp
  | succ count ih =>
      rw [List.range_succ, List.foldl_append, List.foldl_cons, List.foldl_nil, setConsole_apply, ih]
      by_cases hline : line = y
      · by_cases hcolumn : column = count
        · simp [hline, hcolumn]
        · simp only [hline, hcolumn, and_true, if_false]
          congr 1
          exact propext (by omega)
      · simp [hline]

section Write

variable {font : Font} {vga : Vga} {scroll : Scroll}

/-- What `write` does not do to the rest of the terminal before it draws. -/
structure OnlyText (vga next : Vga) : Prop where
  frameBuffer : next.frameBuffer = vga.frameBuffer
  bound : next.bound = vga.bound
  cursorOn : next.cursorOn = vga.cursorOn

theorem onlyText_writeChar (vga : Vga) (c : UInt8) : OnlyText vga (writeChar vga c) := by
  unfold writeChar
  dsimp only
  split_ifs <;> exact ⟨rfl, rfl, rfl⟩

theorem Shows.newLine (hshows : Shows vga scroll) :
    Shows (VgaTerminal.writeChar vga lineFeed) scroll.newLine := by
  have hline := hshows.line
  have hstart : (vga.curY + 1) % bufferHeight = vga.bufferStart := hshows.start.symm
  have hwrite : VgaTerminal.writeChar vga lineFeed =
      { vga with
        curY := (vga.curY + 1) % bufferHeight
        curX := 0
        consoleBuffer := (List.range windowWidth).foldl
          (fun console j => setConsole console j vga.bufferStart ' '.toUInt8) vga.consoleBuffer
        bufferStart := (vga.bufferStart + 1) % bufferHeight
        viewY := (vga.curY + 1) % bufferHeight } := by
    simp only [VgaTerminal.writeChar, if_true, hstart]
  rw [hwrite]
  refine ⟨rfl, Nat.zero_le _, Nat.mod_lt _ (by decide), rfl, ?_, fun y hy x hx => ?_⟩
  · simp only [hshows.start]
  · simp only [foldl_setConsole, hx, true_and, ← hstart, Scroll.newLine]
    by_cases hy' : y = 0
    · subst hy'
      rw [if_pos ?_, if_pos rfl]
      unfold bufferHeight
      omega
    · rw [if_neg ?_, if_neg hy', ← hshows.console (y - 1) (by omega) x hx]
      · congr 1
        unfold bufferHeight at hy ⊢
        omega
      · unfold bufferHeight at hy ⊢
        omega

/-- Only the cursor is moved. -/
theorem Shows.setColumn (hshows : Shows vga scroll) {column : Nat} (hcolumn : column ≤ windowWidth) :
    Shows { vga with curX := column } { scroll with column } :=
  ⟨rfl, hcolumn, hshows.line, hshows.view, hshows.start, hshows.console⟩

theorem Shows.append (hshows : Shows vga scroll) {c : UInt8} (hfeed : c ≠ lineFeed)
    (hreturn : c ≠ carriageReturn) (hback : c ≠ backspace) :
    Shows (VgaTerminal.writeChar vga c) (scroll.append c) := by
  have hline := hshows.line
  rw [VgaTerminal.writeChar, if_neg hfeed, if_neg hreturn, if_neg hback, hshows.column]
  unfold Scroll.append
  split
  next hroom =>
    refine ⟨rfl, hroom, hline, rfl, hshows.start, fun y hy x hx => ?_⟩
    have hcurrent : (vga.curY + bufferHeight - y) % bufferHeight = vga.curY ↔ y = 0 := by
      unfold bufferHeight at hline hy ⊢
      omega
    simp only [setConsole_apply, hcurrent, hshows.console y hy x hx]
    by_cases hy' : y = 0
    · subst hy'
      by_cases hx' : x = scroll.column <;> simp [hx']
    · simp [hy']
  next => exact ⟨hshows.column, hshows.columns, hline, rfl, hshows.start, hshows.console⟩

/-- A character is written to the buffer as it is to the text. -/
theorem Shows.writeChar (hshows : Shows vga scroll) (c : UInt8) :
    Shows (VgaTerminal.writeChar vga c) (scroll.put c) := by
  unfold Scroll.put
  split_ifs with hfeed hreturn hback
  · rw [hfeed]
    exact hshows.newLine
  · rw [VgaTerminal.writeChar, if_neg hfeed, if_pos hreturn]
    exact hshows.setColumn (Nat.zero_le _)
  · rw [VgaTerminal.writeChar, if_neg hfeed, if_neg hreturn, if_pos hback, ← hshows.column]
    exact hshows.setColumn (Nat.le_of_lt (Nat.mod_lt _ (show 0 < windowWidth by decide)))
  · exact hshows.append hfeed hreturn hback

theorem Shows.writeChars (hshows : Shows vga scroll) (buffer : List UInt8) :
    Shows (buffer.foldl VgaTerminal.writeChar vga) (buffer.foldl Scroll.put scroll) ∧
      OnlyText vga (buffer.foldl VgaTerminal.writeChar vga) := by
  induction buffer generalizing vga scroll with
  | nil => exact ⟨hshows, rfl, rfl, rfl⟩
  | cons c buffer ih =>
      obtain ⟨hshown, hlast⟩ := ih (hshows.writeChar c)
      have hfirst := onlyText_writeChar vga c
      exact ⟨hshown, hlast.frameBuffer.trans hfirst.frameBuffer, hlast.bound.trans hfirst.bound,
        hlast.cursorOn.trans hfirst.cursorOn⟩

end Write

/-! ## Runs -/

/-- What is done with the terminal. -/
inductive Event where
  | write (buffer : List UInt8)
  /-- The cursor blinks. -/
  | timer
  | sysfsWrite (id : Nat) (data : List UInt8)

def step (font : Font) (vga : Vga) : Event → Vga
  | .write buffer => write font vga buffer
  | .timer => timerHandler font vga
  | .sysfsWrite id data => (sysfsWrite font vga id data).1

/-- What the terminal is for: a text, a cursor that blinks, and the screen, which is drawn as long
as the terminal is bound to it. -/
structure View where
  scroll : Scroll
  cursorOn : Bool
  bound : Bool
  screen : Nat → UInt8

namespace View

def start (screen : Nat → UInt8) : View := ⟨.start, true, true, screen⟩

def draw (font : Font) (view : View) : View :=
  { view with
    screen := fun spot =>
      if view.bound ∧ spot < pixels then picture font view.scroll view.cursorOn spot
      else view.screen spot }

def apply (font : Font) (view : View) : Event → View
  | .write buffer =>
      draw font { view with
        scroll := buffer.foldl Scroll.put view.scroll
        cursorOn := view.cursorOn || !buffer.isEmpty }
  | .timer => draw font { view with cursorOn := !view.cursorOn }
  | .sysfsWrite id data =>
      if id = sysfsBind ∧ data = ['1'.toUInt8] then draw font { view with bound := true }
      else if id = sysfsBind ∧ data = ['0'.toUInt8] then { view with bound := false }
      else view

end View

/-- The terminal is what it is for. -/
structure Refines (vga : Vga) (view : View) : Prop where
  shows : Shows vga view.scroll
  cursorOn : vga.cursorOn = view.cursorOn
  bound : vga.bound = view.bound
  screen : vga.frameBuffer = view.screen

section Runs

variable {font : Font} {vga : Vga} {view : View}

theorem refines_init (screen : Nat → UInt8) : Refines (init screen) (.start screen) :=
  ⟨⟨rfl, Nat.zero_le _, show 0 < bufferHeight by decide, rfl, rfl, fun _ _ _ _ => rfl⟩, rfl, rfl, rfl⟩

theorem Refines.draw (hrefines : Refines vga view) :
    Refines (terminalUpdate font vga) (view.draw font) := by
  obtain ⟨hshows, hcursor, hbound, hscreen⟩ := hrefines
  by_cases htrue : vga.bound = true
  · have hdrawn := @Shows.terminalUpdate_eq font vga view.scroll hshows htrue
    have hkept : Shows (terminalUpdate font vga) view.scroll := by
      rw [terminalUpdate, if_pos htrue]
      exact hshows.congr rfl rfl rfl rfl rfl
    refine ⟨hkept, ?_, ?_, funext fun spot => ?_⟩
    · rw [terminalUpdate, if_pos htrue]
      exact hcursor
    · rw [terminalUpdate, if_pos htrue]
      exact hbound
    · rw [hdrawn spot, View.draw, ← hbound, ← hcursor, ← hscreen]
      simp only [htrue, true_and]
  · rw [terminalUpdate, if_neg htrue]
    refine ⟨hshows, hcursor, hbound, ?_⟩
    simp [View.draw, ← hbound, htrue, hscreen]

theorem Refines.step (hrefines : Refines vga view) (event : Event) :
    Refines (step font vga event) (view.apply font event) := by
  cases event with
  | write buffer =>
      refine Refines.draw ?_
      have hcursor : Refines (if 0 < buffer.length then { vga with cursorOn := true } else vga)
          { view with cursorOn := view.cursorOn || !buffer.isEmpty } := by
        cases buffer with
        | nil =>
            refine ⟨hrefines.shows, ?_, hrefines.bound, hrefines.screen⟩
            simp [hrefines.cursorOn]
        | cons c buffer =>
            refine ⟨hrefines.shows.congr rfl rfl rfl rfl rfl, ?_, hrefines.bound, hrefines.screen⟩
            simp
      obtain ⟨hshows, hkept⟩ := hcursor.shows.writeChars buffer
      exact ⟨hshows, hkept.cursorOn.trans hcursor.cursorOn, hkept.bound.trans hcursor.bound,
        hkept.frameBuffer.trans hcursor.screen⟩
  | timer =>
      refine Refines.draw ?_
      exact ⟨hrefines.shows.congr rfl rfl rfl rfl rfl, congrArg not hrefines.cursorOn,
        hrefines.bound, hrefines.screen⟩
  | sysfsWrite id data =>
      have hdata : ∀ c : UInt8, data = [c] ↔ data.length = 1 ∧ data.head? = some c := by
        intro c
        rcases data with _ | ⟨first, _ | ⟨second, rest⟩⟩ <;> simp
      have hshown : ∀ bound, Refines { vga with bound } { view with bound } := fun bound =>
        ⟨hrefines.shows.congr rfl rfl rfl rfl rfl, hrefines.cursorOn, rfl, hrefines.screen⟩
      simp only [VgaTerminal.step, sysfsWrite, View.apply, hdata]
      by_cases hform : id = sysfsBind ∧ data.length = 1
      · simp only [hform, and_self, true_and, if_true]
        by_cases hon : data.head? = some '1'.toUInt8
        · simp only [hon, if_true]
          exact (hshown true).draw
        · by_cases hoff : data.head? = some '0'.toUInt8
          · simp only [hoff, if_true, if_false, show ('0'.toUInt8 = '1'.toUInt8) = False by decide,
              Option.some.injEq]
            exact hshown false
          · simp only [hon, hoff, if_false]
            exact hrefines
      · have hother : ∀ c : UInt8,
            ¬ (id = sysfsBind ∧ data.length = 1 ∧ data.head? = some c) :=
          fun c hall => hform ⟨hall.1, hall.2.1⟩
        simp only [hform, hother, if_false]
        exact hrefines

theorem refines_run (font : Font) (screen : Nat → UInt8) (events : List Event) :
    Refines (events.foldl (VgaTerminal.step font) (init screen))
      (events.foldl (View.apply font) (.start screen)) := by
  have hfold : ∀ vga view, Refines vga view →
      Refines (events.foldl (VgaTerminal.step font) vga) (events.foldl (View.apply font) view) := by
    induction events with
    | nil => exact fun _ _ hrefines => hrefines
    | cons event events ih => exact fun _ _ hrefines => ih _ _ (hrefines.step event)
  exact hfold _ _ (refines_init screen)

/-- After whatever was done with the terminal, the screen shows the text that was written to it, as
it was when the screen was drawn last. -/
theorem frameBuffer_run (font : Font) (screen : Nat → UInt8) (events : List Event) :
    (events.foldl (VgaTerminal.step font) (init screen)).frameBuffer =
      (events.foldl (View.apply font) (.start screen)).screen :=
  (refines_run font screen events).screen

end Runs

end PKernel.VgaTerminal
