import PKernel.Library.Ring
import PKernel.Library.Transition
import PKernel.Machine

/-! # Pipes

`pipe.c`. A pipe is a buffer with the position of its first byte and the number
of bytes in it. `pipe_push` reduces the position it writes to, `pipe_pop` uses
the position of the first byte as it is and only ever counts it up. The two
agree up to the first `PIPE_BUFFER_SIZE` bytes read.
-/

namespace PKernel.Pipes

open Library.Ring Library.Transition

/-- `PIPE_BUFFER_SIZE`. -/
def bufferSize : Nat := 1024

/-- `pipe_t`, and the indexes of `buffer` that were used so far, latest first. -/
structure Pipe where
  start : Nat
  size : Nat
  buffer : Nat → UInt8
  accessed : List Nat

/-- `pipe_init`. -/
def pipeInit (buffer : Nat → UInt8) : Pipe := ⟨0, 0, buffer, []⟩

/-- `pipe_push`: false when the buffer is full. -/
def pipePush (pipe : Pipe) (c : UInt8) : Bool × Pipe :=
  if pipe.size = bufferSize then (false, pipe)
  else
    let index := u64 (pipe.start + pipe.size) % bufferSize
    (true, { pipe with
      buffer := Function.update pipe.buffer index c
      size := u64 (pipe.size + 1)
      accessed := index :: pipe.accessed })

/-- `pipe_pop`: nothing when the buffer is empty. -/
def pipePop (pipe : Pipe) : Option UInt8 × Pipe :=
  if pipe.size = 0 then (none, pipe)
  else
    (some (pipe.buffer pipe.start), { pipe with
      start := u64 (pipe.start + 1)
      size := pipe.size - 1
      accessed := pipe.start :: pipe.accessed })

/-- `pipe_read`: the bytes stored in `data`, as many as `*read` says. -/
def pipeRead (pipe : Pipe) : Nat → List UInt8 × Pipe
  | 0 => ([], pipe)
  | size + 1 =>
      match pipePop pipe with
      | (none, pipe) => ([], pipe)
      | (some c, pipe) => (c :: (pipeRead pipe size).1, (pipeRead pipe size).2)

/-- `pipe_write`: the number of bytes accepted, `*wrote`. -/
def pipeWrite (pipe : Pipe) : List UInt8 → Nat × Pipe
  | [] => (0, pipe)
  | c :: data =>
      match pipePush pipe c with
      | (false, pipe) => (0, pipe)
      | (true, pipe) => ((pipeWrite pipe data).1 + 1, (pipeWrite pipe data).2)

/-! ## The pipe as a bounded queue -/

/-- The unread bytes. -/
def Pipe.unread (pipe : Pipe) : List UInt8 :=
  contents pipe.buffer bufferSize pipe.start pipe.size

/-- Not more than a buffer's worth of bytes was read or is there to be read, and
the indexes used were in the buffer. -/
structure Sound (pipe : Pipe) : Prop where
  start : pipe.start ≤ bufferSize
  size : pipe.size ≤ bufferSize
  accessed : ∀ index ∈ pipe.accessed, index < bufferSize

variable {pipe : Pipe}

theorem pipePush_full (hfull : pipe.size = bufferSize) (c : UInt8) :
    pipePush pipe c = (false, pipe) := by
  simp [pipePush, hfull]

theorem pipePush_room (hsound : Sound pipe) (hroom : pipe.size ≠ bufferSize) (c : UInt8) :
    (pipePush pipe c).1 = true ∧ Sound (pipePush pipe c).2 ∧
      (pipePush pipe c).2.unread = pipe.unread ++ [c] ∧
      (pipePush pipe c).2.start = pipe.start ∧ (pipePush pipe c).2.size = pipe.size + 1 := by
  have hstart := hsound.start
  have hsize := hsound.size
  have hlt : pipe.size < bufferSize := by omega
  have hindex : u64 (pipe.start + pipe.size) = pipe.start + pipe.size := by
    apply u64_eq_self
    unfold bufferSize at hstart hlt
    omega
  have hcount : u64 (pipe.size + 1) = pipe.size + 1 := by
    apply u64_eq_self
    unfold bufferSize at hlt
    omega
  simp only [pipePush, hroom, if_false, hindex, hcount]
  refine ⟨trivial, ⟨hstart, hlt, ?_⟩, contents_push hlt c, trivial, trivial⟩
  intro index hmem
  rcases List.mem_cons.mp hmem with rfl | hmem
  · exact Nat.mod_lt _ (by decide)
  · exact hsound.accessed index hmem

/-- As long as fewer bytes than the buffer has were read, the first unread byte
is where `pipe_pop` looks for it. -/
theorem pipePop_some (hsound : Sound pipe) (hsize : pipe.size ≠ 0)
    (hstart : pipe.start < bufferSize) :
    ∃ c, (pipePop pipe).1 = some c ∧ Sound (pipePop pipe).2 ∧
      pipe.unread = c :: (pipePop pipe).2.unread ∧
      (pipePop pipe).2.start = pipe.start + 1 ∧ (pipePop pipe).2.size = pipe.size - 1 := by
  have hnext : u64 (pipe.start + 1) = pipe.start + 1 := by
    apply u64_eq_self
    unfold bufferSize at hstart
    omega
  have hcontents : pipe.unread = pipe.buffer pipe.start ::
      contents pipe.buffer bufferSize (pipe.start + 1) (pipe.size - 1) := by
    obtain ⟨rest, hrest⟩ := Nat.exists_eq_succ_of_ne_zero hsize
    rw [Pipe.unread, hrest, contents_pop, Nat.mod_eq_of_lt hstart]
    rfl
  simp only [pipePop, hsize, if_false, hnext]
  refine ⟨pipe.buffer pipe.start, rfl, ⟨hstart, ?_, ?_⟩, hcontents, trivial, trivial⟩
  · have := hsound.size
    show pipe.size - 1 ≤ bufferSize
    omega
  · intro index hmem
    rcases List.mem_cons.mp hmem with rfl | hmem
    · exact hstart
    · exact hsound.accessed index hmem

/-- What `pipe_write` accepts is appended to the unread bytes, and it stops early
only at a full buffer. -/
theorem pipeWrite_spec (hsound : Sound pipe) (data : List UInt8) :
    Sound (pipeWrite pipe data).2 ∧ (pipeWrite pipe data).1 ≤ data.length ∧
      (pipeWrite pipe data).2.unread = pipe.unread ++ data.take (pipeWrite pipe data).1 ∧
      (pipeWrite pipe data).2.start = pipe.start ∧
      ((pipeWrite pipe data).1 < data.length → (pipeWrite pipe data).2.size = bufferSize) := by
  induction data generalizing pipe with
  | nil => simpa [pipeWrite] using hsound
  | cons c data ih =>
      by_cases hfull : pipe.size = bufferSize
      · simpa [pipeWrite, pipePush_full hfull, hfull] using hsound
      · obtain ⟨hok, hpushed, hunread, hstart, _⟩ := pipePush_room hsound hfull c
        obtain ⟨hwritten, hle, hrest, hrestStart, hearly⟩ := ih hpushed
        have hstep : pipeWrite pipe (c :: data) = ((pipeWrite (pipePush pipe c).2 data).1 + 1,
            (pipeWrite (pipePush pipe c).2 data).2) := by
          rw [pipeWrite]
          split
          next pushed heq => simp [heq] at hok
          next pushed heq => rw [heq]
        rw [hstep]
        refine ⟨hwritten, Nat.succ_le_succ hle, ?_, hrestStart.trans hstart, ?_⟩
        · rw [hrest, hunread, List.append_assoc, List.singleton_append, List.take_succ_cons]
        · intro hlt
          exact hearly (Nat.lt_of_succ_lt_succ hlt)

/-- What `pipe_read` returns are the first unread bytes, if it does not read past
the end of the buffer. -/
theorem pipeRead_spec (hsound : Sound pipe) {size : Nat}
    (hwithin : pipe.start + min size pipe.size ≤ bufferSize) :
    Sound (pipeRead pipe size).2 ∧
      pipe.unread = (pipeRead pipe size).1 ++ (pipeRead pipe size).2.unread ∧
      (pipeRead pipe size).1.length = min size pipe.size ∧
      (pipeRead pipe size).2.start = pipe.start + min size pipe.size := by
  induction size generalizing pipe with
  | zero => simpa [pipeRead] using hsound
  | succ size ih =>
      by_cases hempty : pipe.size = 0
      · have hpop : pipePop pipe = (none, pipe) := by simp [pipePop, hempty]
        simpa [pipeRead, hpop, hempty] using hsound
      · obtain ⟨c, hc, hpopped, hunread, hstart, hsize⟩ :=
          pipePop_some hsound hempty (by omega)
        have hstep : pipeRead pipe (size + 1) = (c :: (pipeRead (pipePop pipe).2 size).1,
            (pipeRead (pipePop pipe).2 size).2) := by
          rw [pipeRead]
          split
          next popped heq => simp [heq] at hc
          next found popped heq =>
            rw [heq] at hc ⊢
            rw [Option.some.inj hc]
        obtain ⟨hread, hrest, hlength, hend⟩ := ih hpopped (by omega)
        rw [hstep]
        refine ⟨hread, ?_, ?_, ?_⟩
        · rw [hunread, hrest, List.cons_append]
        · rw [List.length_cons, hlength]
          omega
        · rw [hend]
          omega

/-! ## Runs -/

/-- A pipe, the bytes that writes reported as accepted and the bytes that reads
returned. -/
structure World where
  pipe : Pipe
  accepted : List UInt8
  returned : List UInt8

inductive Op where
  | write (data : List UInt8)
  | read (size : Nat)

/-- The effect of one call. -/
def World.call (world : World) : Op → World
  | .write data =>
      { world with
        pipe := (pipeWrite world.pipe data).2
        accepted := world.accepted ++ data.take (pipeWrite world.pipe data).1 }
  | .read size =>
      { world with
        pipe := (pipeRead world.pipe size).2
        returned := world.returned ++ (pipeRead world.pipe size).1 }

/-- Runs of one pipe, from `pipe_init` on. -/
def system : System World Op where
  init world := ∃ buffer, world = ⟨pipeInit buffer, [], []⟩
  step world op next := next = world.call op

/-- A read that ends before the end of the buffer, counted from the first byte
that was ever read. -/
def Within (world : World) : Op → Prop
  | .write _ => True
  | .read size => world.pipe.start + min size world.pipe.size ≤ bufferSize

/-- What is to hold of the stream between calls. -/
structure StreamConsistent (world : World) : Prop where
  stream : world.returned <+: world.accepted
  bounded : world.accepted.length ≤ world.returned.length + bufferSize
  /-- A write of any data accepts less than its size only if it ends with a full buffer. -/
  writes : ∀ data, (pipeWrite world.pipe data).1 < data.length →
    (pipeWrite world.pipe data).2.size = bufferSize
  indexes : ∀ index ∈ world.pipe.accessed, index < bufferSize

/-- The accepted bytes are the returned ones and the unread ones. -/
structure Streams (world : World) : Prop where
  sound : Sound world.pipe
  accepted : world.accepted = world.returned ++ world.pipe.unread

variable {world next : World} {op : Op}

theorem call_streams (hworld : Streams world) (hwithin : Within world op) :
    Streams (world.call op) := by
  obtain ⟨hsound, haccepted⟩ := hworld
  cases op with
  | write data =>
      obtain ⟨hwritten, _, hunread, _, _⟩ := pipeWrite_spec hsound data
      refine ⟨hwritten, ?_⟩
      simp only [World.call, hunread, haccepted, List.append_assoc]
  | read size =>
      obtain ⟨hread, hunread, _, _⟩ := pipeRead_spec hsound hwithin
      refine ⟨hread, ?_⟩
      simp only [World.call, haccepted, hunread, List.append_assoc]

theorem streams_inductive : (system.restrict Within).Inductive Streams where
  init world := by
    rintro ⟨buffer, rfl⟩
    exact ⟨⟨Nat.zero_le _, Nat.zero_le _, by simp [pipeInit]⟩, rfl⟩
  step world op next hworld hstep := by
    obtain ⟨hwithin, hcall⟩ := hstep
    rw [hcall]
    exact call_streams hworld hwithin

theorem Streams.consistent (hworld : Streams world) : StreamConsistent world := by
  obtain ⟨hsound, haccepted⟩ := hworld
  refine ⟨⟨_, haccepted.symm⟩, ?_, ?_, hsound.accessed⟩
  · have hsize := hsound.size
    rw [haccepted, List.length_append, Pipe.unread, contents_length]
    omega
  · intro data
    exact (pipeWrite_spec hsound data).2.2.2.2

/-- In every run whose reads stay within the first `PIPE_BUFFER_SIZE` bytes the
pipe is a bounded stream. -/
theorem pipe_stream (hreach : (system.restrict Within).Reachable world) :
    StreamConsistent world :=
  (hreach.invariant streams_inductive).consistent

/-- Two bytes written and one read back. -/
theorem pipe_stream_after_read : ∃ world : World, world.returned = [7] ∧
    (system.restrict Within).Reachable world ∧ StreamConsistent world := by
  have hinit : (system.restrict Within).Reachable ⟨pipeInit fun _ => 0, [], []⟩ :=
    .init ⟨_, rfl⟩
  have hwritten : (system.restrict Within).step ⟨pipeInit fun _ => 0, [], []⟩ (.write [7, 9])
      (World.call ⟨pipeInit fun _ => 0, [], []⟩ (.write [7, 9])) := ⟨trivial, rfl⟩
  have hwithin : Within (World.call ⟨pipeInit fun _ => 0, [], []⟩ (.write [7, 9])) (.read 1) := by
    unfold Within
    decide
  have hread := (hinit.step hwritten).step ⟨hwithin, rfl⟩
  exact ⟨_, rfl, hread, pipe_stream hread⟩

/-- A buffer's worth of bytes written and read back, then one more: the last read
is at index `PIPE_BUFFER_SIZE`. -/
theorem pipe_reads_past_buffer : ∃ world : World, system.Reachable world ∧
    bufferSize ∈ world.pipe.accessed ∧ ¬StreamConsistent world := by
  obtain ⟨start, hstart⟩ : ∃ start : World, start = ⟨pipeInit fun _ => 0, [], []⟩ := ⟨_, rfl⟩
  have hsound : Sound start.pipe := by
    rw [hstart]
    exact ⟨Nat.zero_le _, Nat.zero_le _, by simp [pipeInit]⟩
  -- the first write fills the buffer
  obtain ⟨hfilled, hle, hunread, hfirst, hearly⟩ :=
    pipeWrite_spec hsound (List.replicate bufferSize 0)
  have hcount := congrArg List.length hunread
  have hempty : start.pipe.size = 0 := by rw [hstart]; rfl
  have hzero : start.pipe.start = 0 := by rw [hstart]; rfl
  simp only [Pipe.unread, contents_length, List.length_append, List.length_take,
    List.length_replicate, hempty] at hcount hle hearly
  have hsize : (pipeWrite start.pipe (List.replicate bufferSize 0)).2.size = bufferSize := by
    omega
  -- the read empties it and leaves the position at the end of the buffer
  obtain ⟨hdrained, hrest, hlength, hend⟩ :=
    @pipeRead_spec _ hfilled bufferSize (by omega)
  have hleft := congrArg List.length hrest
  simp only [Pipe.unread, contents_length, List.length_append, hlength, hsize] at hleft hend
  generalize hmiddle :
    (pipeRead (pipeWrite start.pipe (List.replicate bufferSize 0)).2 bufferSize).2 = middle
    at hdrained hrest hleft hend
  have hmiddleEmpty : middle.size ≠ bufferSize := by
    unfold bufferSize at *
    omega
  obtain ⟨hok, _, _, hlastStart, hlastSize⟩ := pipePush_room hdrained hmiddleEmpty 0
  have hinit : system.Reachable start := .init ⟨_, hstart⟩
  have hreach : system.Reachable ((((start.call (.write (List.replicate bufferSize 0))).call
      (.read bufferSize)).call (.write [0])).call (.read 1)) :=
    (((hinit.step rfl).step rfl).step rfl).step rfl
  have haccess : bufferSize ∈ ((((start.call (.write (List.replicate bufferSize 0))).call
      (.read bufferSize)).call (.write [0])).call (.read 1)).pipe.accessed := by
    have hwrite : (pipeWrite middle [0]).2 = (pipePush middle 0).2 := by
      rw [pipeWrite]
      split
      next pushed heq => simp [heq] at hok
      next pushed heq => rw [heq]; rfl
    have hpop : (pipePop (pipePush middle 0).2).2.accessed =
        (pipePush middle 0).2.start :: (pipePush middle 0).2.accessed := by
      rw [pipePop, if_neg (by omega)]
    have hread : (pipeRead (pipePush middle 0).2 1).2 = (pipePop (pipePush middle 0).2).2 := by
      rw [pipeRead]
      split
      next popped heq => rw [heq]
      next found popped heq => rw [heq]; rfl
    show bufferSize ∈ (pipeRead (pipeWrite (pipeRead (pipeWrite start.pipe
      (List.replicate bufferSize 0)).2 bufferSize).2 [0]).2 1).2.accessed
    rw [hmiddle, hwrite, hread, hpop, hlastStart, hend, hfirst, hzero]
    simp
  exact ⟨_, hreach, haccess, fun hconsistent =>
    absurd (hconsistent.indexes bufferSize haccess) (Nat.lt_irrefl _)⟩

end PKernel.Pipes
