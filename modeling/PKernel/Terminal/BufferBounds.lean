import PKernel.Terminal.LineDiscipline

/-! # The bounds of a terminal buffer

Backspaces and reads move the two positions of the buffer on their own, and the end of a line is
stored without a look at the capacity. Each of the three leaves the bounds in its own way.
-/

namespace PKernel.Terminal

open Library Library.Transition

/-- The offset, the size and the capacity are in order. -/
structure Tty.Bounded (tty : Tty) : Prop where
  offset : tty.bufferOffset ≤ tty.bufferSize
  size : tty.bufferSize ≤ tty.bufferCapacity

/-- A call that returns, with the positions in order. No character is stored outside the buffer, and
no byte is read from behind its size. -/
structure Op.InBounds (console : Console) (op : Op) : Prop where
  stores : ∃ outcome next, op.perform console = .ok (outcome, next) ∧ next.tty.Bounded
  reads : ∀ size, op.copies? console = some size →
    console.tty.bufferOffset + min size console.tty.bufferSize ≤ console.tty.bufferSize

/-- A carriage return or a line feed that ends a line. -/
def Tty.endsLine (tty : Tty) (char : UInt8) : Bool :=
  char = carriageReturn ∧ tty.lastChar ≠ lineFeed ∨ char = lineFeed ∧ tty.lastChar ≠ carriageReturn

/-- A call that stays in the bounds. -/
structure Op.Fits (console : Console) (op : Op) : Prop where
  /-- There is nothing to erase, or something that no read has taken. -/
  erases : op = .provide backspace →
    console.tty.bufferSize = 0 ∨ console.tty.bufferOffset < console.tty.bufferSize
  /-- There is room for the end of a line. -/
  ends : ∀ char, op = .provide char → console.tty.endsLine char = true →
    console.tty.bufferSize < console.tty.bufferCapacity
  /-- A read is the first of what is buffered, or asks for no more than the others have left. -/
  copies : ∀ size, op.copies? console = some size → console.tty.bufferOffset = 0 ∨
    size ≤ console.tty.bufferSize - console.tty.bufferOffset

/-- A terminal in any memory. `heap_alloc` has cleared its offset. -/
def consoles : System Console Op where
  init console := ∃ buffer, console = ttyInit 0 buffer
  step console op next := op.Possible console ∧ ∃ outcome, op.perform console = .ok (outcome, next)

variable {tty : Tty} {console next : Console} {op : Op} {char : UInt8} {size thread : Nat}

/-- Only the positions matter. -/
theorem Tty.Bounded.congr {other : Tty} (hbounded : tty.Bounded)
    (hoffset : other.bufferOffset = tty.bufferOffset) (hsize : other.bufferSize = tty.bufferSize)
    (hcapacity : other.bufferCapacity = tty.bufferCapacity) : other.Bounded := by
  obtain ⟨hle, hfits⟩ := hbounded
  exact ⟨by omega, by omega⟩

/-! ## Characters -/

/-- The size behind a character that finds room. -/
def Tty.sizeAfter (tty : Tty) (char : UInt8) : Nat :=
  if char = backspace then tty.bufferSize - 1
  else if tty.endsLine char then tty.bufferSize + 1
  else if char = carriageReturn ∨ char = lineFeed then tty.bufferSize
  else if tty.bufferSize < tty.bufferCapacity then tty.bufferSize + 1 else tty.bufferSize

/-- What a call has done to the positions. -/
structure Sized (tty : Tty) (size : Nat) (next : Tty) : Prop where
  offset : next.bufferOffset = tty.bufferOffset
  size : next.bufferSize = size
  capacity : next.bufferCapacity = tty.bufferCapacity

theorem store_spec (char : UInt8) (hroom : console.tty.bufferSize < console.tty.bufferCapacity) :
    ∃ next, console.store char = .ok next ∧
      Sized console.tty (console.tty.bufferSize + 1) next.tty :=
  ⟨_, if_pos hroom, rfl, rfl, rfl⟩

theorem invoke_sized (console : Console) :
    Sized console.tty console.tty.bufferSize console.invoke.tty := by
  unfold Console.invoke
  dsimp only
  split
  next => exact ⟨rfl, rfl, rfl⟩
  next => split <;> exact ⟨rfl, rfl, rfl⟩

theorem endLine_spec (hroom : console.tty.bufferSize < console.tty.bufferCapacity) :
    ∃ next, console.endLine = .ok next ∧
      Sized console.tty (console.tty.bufferSize + 1) next.tty := by
  let ready : Console := { console with tty := { console.tty with bufferReady := true } }
  obtain ⟨stored, hstore, hsized⟩ := @store_spec ready lineFeed hroom
  refine ⟨stored.invoke, ?_, ?_⟩
  · change (ready.store lineFeed >>= _) = _
    rw [hstore, ok_bind, pure_eq_ok]
  · obtain ⟨hoffset, hsize, hcapacity⟩ := invoke_sized stored
    exact ⟨hoffset.trans hsized.offset, hsize.trans hsized.size, hcapacity.trans hsized.capacity⟩

/-- The end of a line in a full buffer is stored outside it. -/
theorem endLine_full (hfull : ¬console.tty.bufferSize < console.tty.bufferCapacity) :
    console.endLine = .error .badPointer := by
  have hstore : ({ console with tty := { console.tty with bufferReady := true } } : Console).store
      lineFeed = .error .badPointer := if_neg hfull
  change (({ console with tty := { console.tty with bufferReady := true } } : Console).store
    lineFeed >>= _) = _
  rw [hstore, error_bind]

theorem endsLine_carriageReturn : tty.endsLine carriageReturn = true ↔ tty.lastChar ≠ lineFeed := by
  simp [Tty.endsLine, carriageReturn, lineFeed]

theorem endsLine_lineFeed : tty.endsLine lineFeed = true ↔ tty.lastChar ≠ carriageReturn := by
  simp [Tty.endsLine, carriageReturn, lineFeed]

theorem endsLine_other (hcarriage : char ≠ carriageReturn) (hfeed : char ≠ lineFeed) :
    tty.endsLine char = false := by
  simp [Tty.endsLine, hcarriage, hfeed]

/-- The `switch` of `tty_provide_char`, when there is room for the end of a line. -/
theorem enter_spec (hroom : console.tty.endsLine char = true →
      console.tty.bufferSize < console.tty.bufferCapacity) :
    ∃ next, console.enter char = .ok next ∧
      Sized console.tty (console.tty.sizeAfter char) next.tty := by
  unfold Console.enter Tty.sizeAfter
  dsimp only
  by_cases hbackspace : char = backspace
  · rw [if_pos hbackspace, if_pos hbackspace]
    split
    next hsome => exact ⟨_, rfl, rfl, rfl, rfl⟩
    next hnone => exact ⟨_, rfl, rfl, by omega, rfl⟩
  rw [if_neg hbackspace, if_neg hbackspace]
  by_cases hcarriage : char = carriageReturn
  · subst hcarriage
    rw [if_pos rfl]
    split
    next hends =>
      have hends := endsLine_carriageReturn.mpr hends
      rw [if_pos hends]
      exact endLine_spec (hroom hends)
    next hends =>
      rw [if_neg (mt endsLine_carriageReturn.mp hends), if_pos (.inl rfl)]
      exact ⟨_, rfl, rfl, rfl, rfl⟩
  rw [if_neg hcarriage]
  by_cases hfeed : char = lineFeed
  · subst hfeed
    rw [if_pos rfl]
    split
    next hends =>
      have hends := endsLine_lineFeed.mpr hends
      rw [if_pos hends]
      exact endLine_spec (hroom hends)
    next hends =>
      rw [if_neg (mt endsLine_lineFeed.mp hends), if_pos (.inr rfl)]
      exact ⟨_, rfl, rfl, rfl, rfl⟩
  simp only [hfeed, endsLine_other hcarriage hfeed, hcarriage, Bool.false_eq_true, if_false, or_self]
  split
  next hless => exact store_spec char hless
  next hfull => exact ⟨_, rfl, rfl, rfl, rfl⟩

/-- Without it the character is stored behind the buffer. -/
theorem enter_full (hends : console.tty.endsLine char = true)
    (hfull : ¬console.tty.bufferSize < console.tty.bufferCapacity) :
    console.enter char = .error .badPointer := by
  unfold Console.enter
  dsimp only
  by_cases hcarriage : char = carriageReturn
  · subst hcarriage
    rw [if_neg (by decide), if_pos rfl, if_pos (endsLine_carriageReturn.mp hends), endLine_full hfull]
  by_cases hfeed : char = lineFeed
  · subst hfeed
    rw [if_neg (by decide), if_neg (by decide), if_pos rfl, if_pos (endsLine_lineFeed.mp hends),
      endLine_full hfull]
  · rw [endsLine_other hcarriage hfeed] at hends
    cases hends

theorem provide_spec (hroom : console.tty.endsLine char = true →
      console.tty.bufferSize < console.tty.bufferCapacity) :
    ∃ next, ttyProvideChar console char = .ok next ∧
      Sized console.tty (console.tty.sizeAfter char) next.tty := by
  have hecho := echo_tty console char
  obtain ⟨next, hnext, hsized⟩ := @enter_spec (console.echo char) char (by rwa [hecho])
  rw [hecho] at hsized
  rw [ttyProvideChar, hnext, ok_bind, pure_eq_ok]
  exact ⟨_, rfl, hsized.offset, hsized.size, hsized.capacity⟩

/-- A character keeps the bounds exactly if there is room for the line it ends, and something to
erase that was not read. -/
theorem provide_inBounds_iff (hbounded : console.tty.Bounded) :
    (∃ next, ttyProvideChar console char = .ok next ∧ next.tty.Bounded) ↔
      (console.tty.endsLine char = true → console.tty.bufferSize < console.tty.bufferCapacity) ∧
      (char = backspace → console.tty.bufferSize = 0 ∨
        console.tty.bufferOffset < console.tty.bufferSize) := by
  obtain ⟨hle, hfits⟩ := hbounded
  by_cases hroom : console.tty.endsLine char = true →
      console.tty.bufferSize < console.tty.bufferCapacity
  · obtain ⟨next, hnext, hoffset, hsize, hcapacity⟩ := provide_spec hroom
    have hiff : next.tty.Bounded ↔ (char = backspace → console.tty.bufferSize = 0 ∨
        console.tty.bufferOffset < console.tty.bufferSize) := by
      unfold Tty.sizeAfter at hsize
      constructor
      · rintro ⟨hnextOffset, -⟩ hbackspace
        rw [if_pos hbackspace] at hsize
        omega
      · intro herases
        by_cases hbackspace : char = backspace
        · have herases := herases hbackspace
          rw [if_pos hbackspace] at hsize
          exact ⟨by omega, by omega⟩
        · rw [if_neg hbackspace] at hsize
          split at hsize
          next hends =>
            have hless := hroom hends
            exact ⟨by omega, by omega⟩
          next =>
            split at hsize
            next => exact ⟨by omega, by omega⟩
            next => split at hsize <;> exact ⟨by omega, by omega⟩
    rw [← hiff]
    constructor
    · rintro ⟨other, hother, hotherBounded⟩
      cases hnext.symm.trans hother
      exact ⟨hroom, hotherBounded⟩
    · exact fun hand => ⟨next, hnext, hand.2⟩
  · obtain ⟨hends, hfull⟩ := Classical.not_imp.mp hroom
    have hecho := echo_tty console char
    have hstops : ttyProvideChar console char = .error .badPointer := by
      rw [ttyProvideChar, enter_full (by rwa [hecho]) (by rwa [hecho]), error_bind]
    constructor
    · rintro ⟨next, hnext, -⟩
      rw [hstops] at hnext
      cases hnext
    · exact fun hand => absurd hand.1 hroom

/-! ## Reads -/

/-- A read asks for what is left, or for all there is. -/
theorem copies_iff (hbounded : tty.Bounded) :
    tty.bufferOffset + min size tty.bufferSize ≤ tty.bufferSize ↔
      tty.bufferOffset = 0 ∨ size ≤ tty.bufferSize - tty.bufferOffset := by
  have hle := hbounded.offset
  omega

/-- Then it takes that. -/
theorem readRest_spec (hbounded : console.tty.Bounded) (hcopies : console.tty.bufferOffset = 0 ∨
      size ≤ console.tty.bufferSize - console.tty.bufferOffset) :
    ∃ outcome next, readRest console size = .ok (outcome, next) ∧ next.tty.Bounded := by
  have hsum := (copies_iff hbounded).mpr hcopies
  obtain ⟨hle, hfits⟩ := hbounded
  obtain ⟨amnt, hamnt⟩ : ∃ amnt, amnt =
      if size > console.tty.bufferSize then console.tty.bufferSize else size := ⟨_, rfl⟩
  have hmin : amnt = min size console.tty.bufferSize := by
    rw [hamnt]
    split <;> omega
  unfold readRest
  dsimp only
  rw [← hamnt, if_neg (by omega)]
  refine ⟨_, _, rfl, ?_⟩
  dsimp only
  split
  next => exact ⟨Nat.le_refl 0, Nat.zero_le _⟩
  next => exact ⟨by dsimp only; omega, hfits⟩

/-- A read in a console that differs in its waiters. -/
theorem readRest_of_waiters {waiting : Console} (hbounded : console.tty.Bounded)
    (hcopies : console.tty.bufferOffset = 0 ∨
      size ≤ console.tty.bufferSize - console.tty.bufferOffset) {readReady : WaitQueue Nat}
    (htty : waiting.tty = { console.tty with readReady }) :
    ∃ outcome next, readRest waiting size = .ok (outcome, next) ∧ next.tty.Bounded := by
  refine readRest_spec ?_ (by rwa [htty])
  rw [htty]
  exact hbounded.congr rfl rfl rfl

/-! ## Steps -/

/-- A call stays in the bounds exactly if it fits. -/
theorem op_inBounds_iff (hbounded : console.tty.Bounded) (hpossible : op.Possible console) :
    op.InBounds console ↔ op.Fits console := by
  have hcopies : (∀ size, op.copies? console = some size →
      console.tty.bufferOffset + min size console.tty.bufferSize ≤ console.tty.bufferSize) ↔
      ∀ size, op.copies? console = some size → console.tty.bufferOffset = 0 ∨
        size ≤ console.tty.bufferSize - console.tty.bufferOffset :=
    forall₂_congr fun _ _ => copies_iff hbounded
  cases op with
  | provide char =>
      have hiff := @provide_inBounds_iff console char hbounded
      constructor
      · rintro ⟨⟨outcome, next, hperform, hnext⟩, -⟩
        obtain ⟨_, hprovide, hsame⟩ := bind_eq_ok.mp hperform
        cases hsame
        obtain ⟨hends, herases⟩ := hiff.mp ⟨_, hprovide, hnext⟩
        refine ⟨fun hop => herases (Op.provide.inj hop), fun other hop => ?_, fun _ hsize => by cases hsize⟩
        rw [← Op.provide.inj hop]
        exact hends
      · rintro ⟨herases, hends, -⟩
        obtain ⟨next, hprovide, hnext⟩ := hiff.mpr
          ⟨hends char rfl, fun hbackspace => herases (congrArg Op.provide hbackspace)⟩
        refine ⟨⟨.done, next, ?_, hnext⟩, nofun⟩
        rw [Op.perform, hprovide, ok_bind, pure_eq_ok]
  | read thread size =>
      refine ⟨fun hin => ⟨by simp, by simp, hcopies.mp hin.reads⟩,
        fun hfits => ⟨?_, hcopies.mpr hfits.copies⟩⟩
      rw [Op.perform, ttyRead]
      by_cases hready : console.tty.bufferReady = true
      · rw [if_pos hready]
        exact readRest_spec hbounded (hfits.copies size (if_pos (.inl hready)))
      · rw [if_neg hready]
        cases hsignal : console.tty.readReady.signal with
        | true =>
            rw [WaitQueue.await_of_signal hsignal]
            exact readRest_of_waiters hbounded (hfits.copies size (if_pos (.inr hsignal))) rfl
        | false =>
            rw [WaitQueue.await_of_no_signal hsignal]
            exact ⟨_, _, rfl, hbounded.congr rfl rfl rfl⟩
  | resume thread =>
      refine ⟨fun hin => ⟨by simp, by simp, hcopies.mp hin.reads⟩,
        fun hfits => ⟨?_, hcopies.mpr hfits.copies⟩⟩
      obtain ⟨size, hwoken⟩ := hpossible
      have hcopies : (Op.resume thread).copies? console = some size := by
        rw [Op.copies?, hwoken]
      rw [Op.perform, hwoken]
      exact readRest_of_waiters hbounded (hfits.copies size hcopies) rfl

/-! ## Runs -/

theorem bounded_inductive :
    (consoles.restrict fun console op => op.Fits console).Inductive fun console =>
      console.tty.Bounded where
  init console hinit := by
    obtain ⟨buffer, rfl⟩ := hinit
    exact ⟨Nat.le_refl 0, Nat.zero_le _⟩
  step console op next hbounded hstep := by
    obtain ⟨hfits, hpossible, outcome, hperform⟩ := hstep
    obtain ⟨other, console', hperform', hnext⟩ := ((op_inBounds_iff hbounded hpossible).mpr hfits).stores
    rw [hperform, Except.ok.injEq, Prod.mk.injEq] at hperform'
    rwa [hperform'.2]

/-- In runs of calls that fit the positions are in order, and the next call keeps to them exactly if
it fits, too. -/
theorem buffer_bounded
    (hreach : (consoles.restrict fun console op => op.Fits console).Reachable console) :
    console.tty.Bounded ∧
      ∀ op : Op, op.Possible console → (op.InBounds console ↔ op.Fits console) :=
  have hbounded := hreach.invariant bounded_inductive
  ⟨hbounded, fun _ hpossible => op_inBounds_iff hbounded hpossible⟩

theorem consoles_perform (hreach : consoles.Reachable console) (op : Op) {outcome : Outcome}
    (hpossible : op.Possible console) (hperform : op.perform console = .ok (outcome, next)) :
    consoles.Reachable next :=
  hreach.step ⟨hpossible, outcome, hperform⟩

theorem fitting_perform
    (hreach : (consoles.restrict fun console op => op.Fits console).Reachable console) (op : Op)
    {outcome : Outcome} (hpossible : op.Possible console)
    (hperform : op.perform console = .ok (outcome, next)) (hfits : op.Fits console) :
    (consoles.restrict fun console op => op.Fits console).Reachable next :=
  hreach.step ⟨hfits, hpossible, outcome, hperform⟩

/-- A character and the end of its line come in. -/
theorem buffer_bounded_line : ∃ console : Console, console.tty.bufferSize = 2 ∧
    console.tty.Bounded ∧ ∀ op : Op, op.Possible console → (op.InBounds console ↔ op.Fits console) := by
  have hboot : (consoles.restrict fun console op => op.Fits console).Reachable
      (ttyInit 0 fun _ => 0) := .init ⟨_, rfl⟩
  have hfirst := fitting_perform hboot (.provide 0x61) trivial rfl
    ⟨nofun, fun _ _ _ => by decide, nofun⟩
  have hline := fitting_perform hfirst (.provide lineFeed) trivial rfl
    ⟨nofun, fun _ _ _ => by decide, nofun⟩
  exact ⟨_, rfl, buffer_bounded hline⟩

/-- A read takes two bytes of a line, and two backspaces erase them. -/
theorem buffer_unbounded : ∃ console : Console, consoles.Reachable console ∧
    console.tty.bufferOffset = 2 ∧ console.tty.bufferSize = 1 ∧ ¬console.tty.Bounded := by
  have hboot : consoles.Reachable _ := .init ⟨fun _ => 0, rfl⟩
  have hfirst := consoles_perform hboot (.provide 0x61) trivial rfl
  have hsecond := consoles_perform hfirst (.provide 0x62) trivial rfl
  have hline := consoles_perform hsecond (.provide lineFeed) trivial rfl
  have hread := consoles_perform hline (.read 7 2) rfl rfl
  have hback := consoles_perform hread (.provide backspace) trivial rfl
  have hagain := consoles_perform hback (.provide backspace) trivial rfl
  exact ⟨_, hagain, rfl, rfl, fun hbounded => absurd hbounded.offset (by decide)⟩

end PKernel.Terminal
