import PKernel.Library.Transition
import PKernel.Terminal.Tty

/-! # The line discipline of a terminal

What reads return is the edited input, as long as a read never asks for more than the buffer
holds behind its offset, a backspace finds a character of the unfinished line that no read has
taken, no carriage return follows a line feed, and no line ends in a full buffer.
-/

namespace PKernel.Terminal

open Library Library.Transition

/-- The input as it should be edited: the finished lines, the unfinished one, and the last
character, since a line feed behind a carriage return ends no line. -/
structure Editor where
  finished : List UInt8
  line : List UInt8
  last : UInt8
deriving DecidableEq, Repr

namespace Editor

def empty : Editor := ⟨[], [], 0⟩

def text (editor : Editor) : List UInt8 := editor.finished ++ editor.line

/-- A line ends, unless the buffer is full. -/
def endLine (editor : Editor) (full : Bool) : Editor :=
  if full then editor
  else { editor with finished := editor.text ++ [lineFeed], line := [] }

/-- A character comes in. -/
def enter (editor : Editor) (full : Bool) (char : UInt8) : Editor :=
  let edited :=
    if char = backspace then { editor with line := editor.line.dropLast }
    else if char = carriageReturn then editor.endLine full
    else if char = lineFeed then
      if editor.last = carriageReturn then editor else editor.endLine full
    else if full then editor
    else { editor with line := editor.line ++ [char] }
  { edited with last := char }

end Editor

/-- The terminal, with its input as it should be edited and all that reads returned. -/
structure Session where
  console : Console
  editor : Editor
  returned : List UInt8

def Tty.full (tty : Tty) : Bool := tty.bufferSize = tty.bufferCapacity

/-- The bytes of the buffer that no read has taken. -/
def Tty.unread (tty : Tty) : List UInt8 := tty.bytes tty.bufferOffset tty.bufferSize

def Session.after (session : Session) (op : Op) (outcome : Outcome) (next : Console) : Session where
  console := next
  editor :=
    match op with
    | .provide char => session.editor.enter session.console.tty.full char
    | _ => session.editor
  returned :=
    match outcome with
    | .read data => session.returned ++ data
    | _ => session.returned

/-- A terminal whose memory held this offset before. -/
def sessions (bufferOffset : Nat) : System Session Op where
  init session := ∃ buffer, session = ⟨ttyInit bufferOffset buffer, .empty, []⟩
  step session op next := op.Possible session.console ∧ ∃ outcome console,
    op.perform session.console = .ok (outcome, console) ∧ next = session.after op outcome console

/-- The size of a read that a step copies for, if it does. -/
def Op.copies? (console : Console) : Op → Option Nat
  | .provide _ => none
  | .read _ size =>
      if console.tty.bufferReady ∨ console.tty.readReady.signal then some size else none
  | .resume thread =>
      match console.readers thread with
      | .woken size => some size
      | _ => none

/-- The steps that do as they should. -/
structure Careful (session : Session) (op : Op) : Prop where
  /-- The last character of the unfinished line was not read, or nothing is buffered at all. -/
  erases : op = .provide backspace →
    if session.editor.line = [] then session.console.tty.bufferSize = 0
    else session.console.tty.bufferOffset < session.console.tty.bufferSize
  /-- A carriage return behind a line feed is dropped, and so is one that finds no room. -/
  ends : op = .provide carriageReturn →
    (session.console.tty.lastChar = lineFeed ↔ session.console.tty.full = true)
  feeds : op = .provide lineFeed → session.console.tty.lastChar ≠ carriageReturn →
    session.console.tty.full = false
  copies : ∀ size, op.copies? session.console = some size →
    session.console.tty.bufferOffset + min size session.console.tty.bufferSize ≤
      session.console.tty.bufferSize

/-- What was returned and what is left to read are the edited input, and the next call
returns. -/
structure Edited (session : Session) : Prop where
  in_order : session.returned <+: session.editor.text
  complete : session.returned ++ session.console.tty.unread = session.editor.text
  returns : ∀ op : Op, op.Possible session.console → Careful session op →
    ∃ outcome console, op.perform session.console = .ok (outcome, console)

/-- A terminal holds what is left of a text of which some was returned. -/
structure Tty.Holds (tty : Tty) (returned text : List UInt8) : Prop where
  offset : tty.bufferOffset ≤ tty.bufferSize
  size : tty.bufferSize ≤ tty.bufferCapacity
  bytes : returned ++ tty.unread = text

/-- What holds in every state of a careful run. -/
structure Disciplined (session : Session) : Prop where
  holds : session.console.tty.Holds session.returned session.editor.text
  last : session.console.tty.lastChar = session.editor.last

variable {tty : Tty} {console next : Console} {session : Session} {op : Op} {outcome : Outcome}
  {start middle stop size thread : Nat} {char : UInt8} {returned text : List UInt8}
  {editor : Editor}

/-! ## The buffer -/

theorem bytes_append (tty : Tty) (hstart : start ≤ middle) (hstop : middle ≤ stop) :
    tty.bytes start middle ++ tty.bytes middle stop = tty.bytes start stop := by
  rw [Tty.bytes, Tty.bytes, Tty.bytes, ← List.map_append]
  congr 1
  have hmiddle : middle = start + (middle - start) := by omega
  have hlength : stop - start = (middle - start) + (stop - middle) := by omega
  rw [hlength, ← List.range'_append_1, ← hmiddle]

theorem bytes_succ (tty : Tty) (hstart : start ≤ stop) :
    tty.bytes start (stop + 1) = tty.bytes start stop ++ [tty.buffer stop] := by
  rw [← bytes_append tty hstart (Nat.le_succ stop)]
  congr 1
  rw [Tty.bytes, Nat.succ_eq_add_one, Nat.add_sub_cancel_left]
  rfl

theorem bytes_congr {other : Tty} (hsame : ∀ index, index < stop → other.buffer index = tty.buffer index) :
    other.bytes start stop = tty.bytes start stop := by
  refine List.map_congr_left fun index hindex => hsame index ?_
  have hbounds := List.mem_range'_1.mp hindex
  omega

/-- The last byte of the buffer goes away. -/
theorem bytes_dropLast (tty : Tty) (hstart : start < stop) :
    (tty.bytes start stop).dropLast = tty.bytes start (stop - 1) := by
  obtain ⟨last, rfl⟩ : ∃ last, stop = last + 1 := ⟨stop - 1, by omega⟩
  rw [bytes_succ tty (by omega), List.dropLast_concat, Nat.add_sub_cancel]

theorem full_iff (tty : Tty) : tty.full = true ↔ tty.bufferSize = tty.bufferCapacity := by
  rw [Tty.full, decide_eq_true_eq]

namespace Tty.Holds

theorem room (hholds : tty.Holds returned text) (hfull : tty.full = false) :
    tty.bufferSize < tty.bufferCapacity := by
  refine Nat.lt_of_le_of_ne hholds.size fun hsame => ?_
  rw [(full_iff tty).mpr hsame] at hfull
  exact nomatch hfull

/-- Only the buffer and its two positions matter. -/
theorem congr {other : Tty} (hholds : tty.Holds returned text) (hbuffer : other.buffer = tty.buffer)
    (hoffset : other.bufferOffset = tty.bufferOffset) (hsize : other.bufferSize = tty.bufferSize)
    (hcapacity : other.bufferCapacity = tty.bufferCapacity) : other.Holds returned text := by
  obtain ⟨hle, hfits, hbytes⟩ := hholds
  refine ⟨by omega, by omega, ?_⟩
  rwa [Tty.unread, Tty.bytes, hbuffer, hoffset, hsize]

/-- A character is stored behind the others. -/
theorem store (hholds : console.tty.Holds returned text) (hfull : console.tty.full = false)
    (char : UInt8) : ∃ next, console.store char = .ok next ∧
      next.tty.Holds returned (text ++ [char]) := by
  have hroom := hholds.room hfull
  obtain ⟨hle, hfits, hbytes⟩ := hholds
  refine ⟨_, if_pos hroom, Nat.le_succ_of_le hle, hroom, ?_⟩
  rw [Tty.unread]
  dsimp only
  rw [bytes_succ _ hle, ← List.append_assoc, ← hbytes]
  congr 2
  · exact bytes_congr fun index hindex => Function.update_of_ne (Nat.ne_of_lt hindex) ..
  · simp

theorem invoke (hholds : console.tty.Holds returned text) :
    console.invoke.tty.Holds returned text := by
  unfold Console.invoke
  dsimp only
  split
  next => exact hholds.congr rfl rfl rfl rfl
  next => split <;> exact hholds.congr rfl rfl rfl rfl

theorem endLine (hholds : console.tty.Holds returned text) (hfull : console.tty.full = false) :
    ∃ next, console.endLine = .ok next ∧ next.tty.Holds returned (text ++ [lineFeed]) := by
  let ready : Console := { console with tty := { console.tty with bufferReady := true } }
  have hready : ready.tty.Holds returned text := hholds.congr rfl rfl rfl rfl
  obtain ⟨stored, hstore, hstored⟩ := hready.store hfull lineFeed
  refine ⟨stored.invoke, ?_, hstored.invoke⟩
  change (ready.store lineFeed >>= _) = _
  rw [hstore, ok_bind, pure_eq_ok]

/-- The last character that is left goes away. -/
theorem erase (hholds : tty.Holds returned text) (hunread : tty.bufferOffset < tty.bufferSize) :
    ({ tty with bufferSize := tty.bufferSize - 1 } : Tty).Holds returned text.dropLast := by
  obtain ⟨hle, hfits, hbytes⟩ := hholds
  refine ⟨Nat.le_sub_one_of_lt hunread, by dsimp only; omega, ?_⟩
  have hne : tty.unread ≠ [] := by
    intro hempty
    have hlength := congrArg List.length hempty
    simp [Tty.unread, Tty.bytes] at hlength
    omega
  rw [← hbytes, List.dropLast_append_of_ne_nil hne, Tty.unread, Tty.unread, bytes_dropLast _ hunread]
  rfl

end Tty.Holds

/-! ## Characters -/

theorem echo_tty (console : Console) (char : UInt8) : (console.echo char).tty = console.tty := by
  unfold Console.echo Console.write
  repeat' split
  all_goals rfl

theorem text_endLine (editor : Editor) :
    (editor.endLine false).text = editor.text ++ [lineFeed] := by
  simp [Editor.endLine, Editor.text]

/-- A character that comes in changes the buffer as it changes the text. -/
theorem Disciplined.enter (hdisciplined : Disciplined session)
    (hcareful : Careful session (.provide char)) (htty : session.console.tty = console.tty) :
    ∃ next, console.enter char = .ok next ∧
      next.tty.Holds session.returned (session.editor.enter console.tty.full char).text := by
  obtain ⟨hholds, hlast⟩ := hdisciplined
  obtain ⟨herases, hends, hfeeds, -⟩ := hcareful
  rw [htty] at hholds hlast herases hends hfeeds
  unfold Console.enter Editor.enter
  dsimp only
  by_cases hbackspace : char = backspace
  · have herases := herases (congrArg Op.provide hbackspace)
    rw [if_pos hbackspace, if_pos hbackspace]
    split at herases
    next hline =>
      refine ⟨console, if_neg (by omega), ?_⟩
      rw [Editor.text] at hholds ⊢
      rwa [hline] at hholds ⊢
    next hline =>
      refine ⟨_, if_pos (by omega), ?_⟩
      have herased := hholds.erase herases
      rwa [Editor.text, List.dropLast_append_of_ne_nil hline] at herased
  rw [if_neg hbackspace, if_neg hbackspace]
  by_cases hcarriage : char = carriageReturn
  · have hends := hends (congrArg Op.provide hcarriage)
    rw [if_pos hcarriage, if_pos hcarriage]
    by_cases hfed : console.tty.lastChar = lineFeed
    · refine ⟨console, if_neg (not_not_intro hfed), ?_⟩
      rw [hends.mp hfed]
      exact hholds
    · have hfull : console.tty.full = false := by simpa [hfed] using hends
      rw [if_pos hfed, hfull]
      have hended := hholds.endLine hfull
      rwa [← text_endLine] at hended
  rw [if_neg hcarriage, if_neg hcarriage]
  by_cases hfeed : char = lineFeed
  · have hfeeds := hfeeds (congrArg Op.provide hfeed)
    rw [if_pos hfeed, if_pos hfeed, ← hlast]
    by_cases hreturned : console.tty.lastChar = carriageReturn
    · rw [if_neg (not_not_intro hreturned), if_pos hreturned]
      exact ⟨console, rfl, hholds⟩
    · rw [if_pos hreturned, if_neg hreturned, hfeeds hreturned]
      have hended := hholds.endLine (hfeeds hreturned)
      rwa [← text_endLine] at hended
  rw [if_neg hfeed, if_neg hfeed]
  cases hfull : console.tty.full with
  | true =>
      have hfits := (full_iff console.tty).mp hfull
      exact ⟨console, if_neg (by omega), hholds⟩
  | false =>
      rw [if_pos (hholds.room hfull)]
      have hstored := hholds.store hfull char
      rwa [Editor.text, List.append_assoc] at hstored

/-- A character that comes in keeps what holds of a session. -/
theorem Disciplined.provide (hdisciplined : Disciplined session)
    (hcareful : Careful session (.provide char)) :
    ∃ next, ttyProvideChar session.console char = .ok next ∧
      Disciplined (session.after (.provide char) .done next) := by
  have hecho := echo_tty session.console char
  obtain ⟨next, hnext, hentered⟩ := hdisciplined.enter hcareful hecho.symm
  rw [ttyProvideChar, hnext, ok_bind, pure_eq_ok]
  rw [hecho] at hentered
  exact ⟨_, rfl, hentered.congr rfl rfl rfl rfl, rfl⟩

/-! ## Reads -/

/-- A read that asks for no more than there is takes the first of the bytes that are left. -/
theorem Tty.Holds.readRest (hholds : console.tty.Holds returned text)
    (hcopies : console.tty.bufferOffset + min size console.tty.bufferSize ≤ console.tty.bufferSize) :
    ∃ data next, readRest console size = .ok (.read data, next) ∧
      next.tty.Holds (returned ++ data) text ∧ next.tty.lastChar = console.tty.lastChar := by
  obtain ⟨hle, hfits, hbytes⟩ := hholds
  obtain ⟨amnt, hamnt⟩ : ∃ amnt, amnt =
      if size > console.tty.bufferSize then console.tty.bufferSize else size := ⟨_, rfl⟩
  have hmin : amnt = min size console.tty.bufferSize := by
    rw [hamnt]
    split <;> omega
  rw [← hmin] at hcopies
  have hsplit := bytes_append console.tty (Nat.le_add_right console.tty.bufferOffset amnt) hcopies
  unfold Terminal.readRest
  dsimp only
  rw [← hamnt, if_neg (by omega)]
  refine ⟨_, _, rfl, ?_, ?_⟩
  · dsimp only
    split
    next hempty =>
      refine ⟨Nat.le_refl 0, Nat.zero_le _, ?_⟩
      have hdrained : console.tty.unread = console.tty.bytes console.tty.bufferOffset
          (console.tty.bufferOffset + amnt) := by rw [Tty.unread, hempty]
      rw [← hbytes, hdrained]
      exact List.append_nil _
    next =>
      refine ⟨hcopies, hfits, ?_⟩
      rw [← hbytes, List.append_assoc]
      exact congrArg _ hsplit
  · dsimp only
    split <;> rfl

/-- `tty_read` behind its `scheduler_await`, in a console that differs in its waiters. -/
theorem Disciplined.copy (hdisciplined : Disciplined session) (hcareful : Careful session op)
    (hop : op.copies? session.console = some size) (hread : ∀ char, op ≠ .provide char)
    {readReady : WaitQueue Nat}
    (htty : console.tty = { session.console.tty with readReady }) :
    ∃ outcome next, readRest console size = .ok (outcome, next) ∧
      Disciplined (session.after op outcome next) := by
  have hholds : console.tty.Holds session.returned session.editor.text := by
    rw [htty]
    exact hdisciplined.holds.congr rfl rfl rfl rfl
  have hcopies := hcareful.copies size hop
  have hfits : console.tty.bufferOffset + min size console.tty.bufferSize ≤
      console.tty.bufferSize := by rwa [htty]
  obtain ⟨data, next, hnext, hleft, hlast⟩ := hholds.readRest hfits
  refine ⟨_, next, hnext, ?_⟩
  cases op with
  | provide char => exact absurd rfl (hread char)
  | read | resume =>
      exact ⟨hleft, hlast.trans ((congrArg Tty.lastChar htty).trans hdisciplined.last)⟩

/-- A careful step returns and keeps what holds of a session. -/
theorem Disciplined.step (hdisciplined : Disciplined session) (hpossible : op.Possible session.console)
    (hcareful : Careful session op) : ∃ outcome next,
      op.perform session.console = .ok (outcome, next) ∧
        Disciplined (session.after op outcome next) := by
  cases op with
  | provide char =>
      obtain ⟨next, hnext, hafter⟩ := hdisciplined.provide hcareful
      refine ⟨.done, next, ?_, hafter⟩
      rw [Op.perform, hnext, ok_bind, pure_eq_ok]
  | read thread size =>
      rw [Op.perform, ttyRead]
      by_cases hready : session.console.tty.bufferReady = true
      · rw [if_pos hready]
        exact hdisciplined.copy hcareful (if_pos (.inl hready)) (by simp) rfl
      · rw [if_neg hready]
        cases hsignal : session.console.tty.readReady.signal with
        | true =>
            rw [WaitQueue.await_of_signal hsignal]
            exact hdisciplined.copy hcareful (if_pos (.inr hsignal)) (by simp) rfl
        | false =>
            rw [WaitQueue.await_of_no_signal hsignal]
            exact ⟨_, _, rfl, hdisciplined.holds.congr rfl rfl rfl rfl, hdisciplined.last⟩
  | resume thread =>
      obtain ⟨size, hwoken⟩ := hpossible
      have hcopies : (Op.resume thread).copies? session.console = some size := by
        rw [Op.copies?, hwoken]
      rw [Op.perform, hwoken]
      exact hdisciplined.copy hcareful hcopies (by simp) rfl

theorem disciplined_inductive :
    ((sessions 0).restrict Careful).Inductive Disciplined where
  init session hinit := by
    obtain ⟨buffer, rfl⟩ := hinit
    exact ⟨⟨Nat.le_refl 0, Nat.zero_le _, rfl⟩, rfl⟩
  step session op next hdisciplined hstep := by
    obtain ⟨hcareful, hpossible, outcome, console, hperform, rfl⟩ := hstep
    obtain ⟨outcome', console', hperform', hafter⟩ := hdisciplined.step hpossible hcareful
    rw [hperform, Except.ok.injEq, Prod.mk.injEq] at hperform'
    rwa [hperform'.1, hperform'.2]

/-- In careful runs reads return the edited input, in order and once. -/
theorem reads_edited (hreach : ((sessions 0).restrict Careful).Reachable session) : Edited session := by
  have hdisciplined := hreach.invariant disciplined_inductive
  refine ⟨⟨_, hdisciplined.holds.bytes⟩, hdisciplined.holds.bytes, fun op hpossible hcareful => ?_⟩
  obtain ⟨outcome, next, hperform, -⟩ := hdisciplined.step hpossible hcareful
  exact ⟨outcome, next, hperform⟩

theorem sessions_perform {offset : Nat} (hreach : (sessions offset).Reachable session) (op : Op)
    (hpossible : op.Possible session.console)
    (hperform : op.perform session.console = .ok (outcome, next)) :
    (sessions offset).Reachable (session.after op outcome next) :=
  hreach.step ⟨hpossible, outcome, next, hperform, rfl⟩

theorem sessions_perform_careful (hreach : ((sessions 0).restrict Careful).Reachable session) (op : Op)
    (hpossible : op.Possible session.console)
    (hperform : op.perform session.console = .ok (outcome, next)) (hcareful : Careful session op) :
    ((sessions 0).restrict Careful).Reachable (session.after op outcome next) :=
  hreach.step ⟨hcareful, hpossible, outcome, next, hperform, rfl⟩

/-- Two characters of a line of three are read. -/
theorem reads_edited_in_line : ∃ session : Session, session.returned = [0x61, 0x62] ∧
    session.editor.text = [0x61, 0x62, 0x63, 0x0a] ∧ Edited session := by
  have hboot : ((sessions 0).restrict Careful).Reachable _ := .init ⟨fun _ => 0, rfl⟩
  have hfirst := sessions_perform_careful hboot (.provide 0x61) trivial rfl ⟨nofun, nofun, nofun, nofun⟩
  have hsecond := sessions_perform_careful hfirst (.provide 0x62) trivial rfl
    ⟨nofun, nofun, nofun, nofun⟩
  have hthird := sessions_perform_careful hsecond (.provide 0x63) trivial rfl
    ⟨nofun, nofun, nofun, nofun⟩
  have hline := sessions_perform_careful hthird (.provide 0x0a) trivial rfl
    ⟨nofun, nofun, fun _ _ => rfl, nofun⟩
  have hread := sessions_perform_careful hline (.read 7 2) rfl rfl
    ⟨nofun, nofun, nofun, by rintro _ ⟨⟩; decide⟩
  exact ⟨_, rfl, rfl, reads_edited hread⟩

/-- A line of three characters is read in two parts: the second returns two bytes that nobody
typed. -/
theorem reads_beyond_line : ∃ session : Session, (sessions 0).Reachable session ∧
    session.returned = [0x61, 0x62, 0x63, 0x0a, 0xff, 0xff] ∧
      session.editor.text = [0x61, 0x62, 0x63, 0x0a] ∧ ¬Edited session := by
  have hboot : (sessions 0).Reachable _ := .init ⟨fun _ => 0xff, rfl⟩
  have hfirst := sessions_perform hboot (.provide 0x61) trivial rfl
  have hsecond := sessions_perform hfirst (.provide 0x62) trivial rfl
  have hthird := sessions_perform hsecond (.provide 0x63) trivial rfl
  have hline := sessions_perform hthird (.provide 0x0a) trivial rfl
  have hread := sessions_perform hline (.read 7 2) rfl rfl
  have hrest := sessions_perform hread (.read 7 10) rfl rfl
  refine ⟨_, hrest, rfl, rfl, fun hedited => ?_⟩
  exact absurd hedited.in_order.length_le (by decide)

end PKernel.Terminal
