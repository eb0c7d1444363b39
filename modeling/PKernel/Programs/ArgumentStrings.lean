import PKernel.Paging.RootFrames
import PKernel.Programs.StackPushes

/-! # The strings of an argument vector

The second loop of `process_push_args` copies the strings one behind the other, into a buffer that
none of them is in, and stores where the process finds the copies.
-/

namespace PKernel.Programs

open Pman
open Vfs (Path)

/-- A string as it is in memory. -/
def stored (string : Path) : List UInt8 := string.chars ++ [0]

/-- The bytes of some strings, one behind the other. -/
def packed (strings : List Path) : List UInt8 := strings.flatMap stored

/-- The addresses of the strings in there. -/
def offsets : Nat → List Path → List Nat
  | _, [] => []
  | start, string :: strings => start :: offsets (start + (stored string).length) strings

section Packed

variable {strings : List Path} {string : Path} {start i : Nat}

@[simp]
theorem stored_length (string : Path) : (stored string).length = string.chars.length + 1 := by
  simp [stored]

theorem packed_cons (string : Path) (strings : List Path) :
    packed (string :: strings) = stored string ++ packed strings := rfl

theorem offsets_length (start : Nat) (strings : List Path) :
    (offsets start strings).length = strings.length := by
  induction strings generalizing start with
  | nil => rfl
  | cons string strings ih => rw [offsets, List.length_cons, ih, List.length_cons]

/-- Each string starts where its address says, and ends before the end of them all. -/
theorem offsets_spec (hstring : strings[i]? = some string) :
    ∃ before, (offsets start strings)[i]? = some (start + before) ∧
      before + (stored string).length ≤ (packed strings).length ∧
      ∀ j byte, (stored string)[j]? = some byte → (packed strings)[before + j]? = some byte := by
  induction strings generalizing start i with
  | nil => simp at hstring
  | cons first strings ih =>
      rw [packed_cons, List.length_append]
      cases i with
      | zero =>
          obtain rfl : first = string := by simpa using hstring
          refine ⟨0, rfl, by omega, fun j byte hbyte => ?_⟩
          have hj := (List.getElem?_eq_some_iff.mp hbyte).1
          rw [Nat.zero_add, List.getElem?_append_left hj]
          exact hbyte
      | succ i =>
          obtain ⟨before, hoffset, hend, hbytes⟩ :=
            @ih (start + (stored first).length) i (by simpa using hstring)
          refine ⟨(stored first).length + before, ?_, by omega, fun j byte hbyte => ?_⟩
          · rw [offsets, List.getElem?_cons_succ, hoffset, Nat.add_assoc]
          · rw [Nat.add_assoc, List.getElem?_append_right (Nat.le_add_right _ _),
              Nat.add_sub_cancel_left]
            exact hbytes j byte hbyte

theorem le_of_mem_offsets {pointer : Nat} (hpointer : pointer ∈ offsets start strings) :
    start ≤ pointer := by
  induction strings generalizing start with
  | nil => cases hpointer
  | cons string strings ih =>
      rcases List.mem_cons.mp hpointer with rfl | hrest
      · exact Nat.le_refl _
      · exact (Nat.le_add_right _ _).trans (ih hrest)

theorem mem_offsets_le {pointer : Nat} (hpointer : pointer ∈ offsets start strings) :
    pointer ≤ start + (packed strings).length := by
  induction strings generalizing start with
  | nil => cases hpointer
  | cons string strings ih =>
      rw [packed_cons, List.length_append]
      rcases List.mem_cons.mp hpointer with rfl | hrest
      · exact Nat.le_add_right _ _
      · exact (ih hrest).trans_eq (Nat.add_assoc _ _ _)

/-- No string reaches into a later one. -/
theorem offsets_pairwise (start : Nat) (strings : List Path) :
    ((offsets start strings).zip strings).Pairwise fun first second =>
      first.1 + (stored first.2).length ≤ second.1 := by
  induction strings generalizing start with
  | nil => exact .nil
  | cons string strings ih =>
      rw [offsets, List.zip_cons_cons]
      refine .cons ?_ (ih _)
      intro second hsecond
      exact le_of_mem_offsets (List.of_mem_zip hsecond).1

end Packed

/-! ## Reading strings -/

section Strings

variable {state next : Pman.State} {vaddr fuel held : Nat} {string : Path}

/-- The bytes at the address of a string. -/
theorem readString_loads (hcall : readString state fuel vaddr = .ok string) {j : Nat}
    {byte : UInt8} (hbyte : (stored string)[j]? = some byte) :
    loadByte state (vaddr + j) = .ok byte := by
  induction fuel generalizing vaddr string j with
  | zero => cases hcall
  | succ fuel ih =>
      rw [readString] at hcall
      obtain ⟨char, hchar, hcall⟩ := bind_eq_ok.mp hcall
      by_cases hzero : char = 0
      · rw [dif_pos hzero, pure_eq_ok, Except.ok.injEq] at hcall
        subst hcall hzero
        obtain ⟨hj, hbyte⟩ := List.getElem?_eq_some_iff.mp hbyte
        obtain rfl : j = 0 := by simpa [stored] using hj
        simpa [stored, ← hbyte] using hchar
      · rw [dif_neg hzero] at hcall
        obtain ⟨rest, hrest, hcall⟩ := bind_eq_ok.mp hcall
        cases hcall
        cases j with
        | zero =>
            obtain rfl : char = byte := by simpa [stored] using hbyte
            exact hchar
        | succ j =>
            have hrestByte : (stored rest)[j]? = some byte := by simpa [stored] using hbyte
            have hload := ih hrest hrestByte
            rwa [Nat.add_assoc, Nat.add_comm 1 j] at hload

/-- A string is what is at its address. -/
theorem readString_of_loads (hfuel : string.chars.length < fuel)
    (hloads : ∀ j byte, (stored string)[j]? = some byte →
      loadByte state (vaddr + j) = .ok byte) :
    readString state fuel vaddr = .ok string := by
  obtain ⟨chars, hnoNul⟩ := string
  induction fuel generalizing vaddr chars with
  | zero => exact absurd hfuel (Nat.not_lt_zero _)
  | succ fuel ih =>
      cases chars with
      | nil =>
          have hzero := hloads 0 0 rfl
          rw [Nat.add_zero] at hzero
          rw [readString, hzero, ok_bind]
          rfl
      | cons char chars =>
          have hchar := hloads 0 char rfl
          rw [Nat.add_zero] at hchar
          have hne : char ≠ 0 := fun heq => hnoNul (heq ▸ List.mem_cons_self)
          have hrest := @ih (vaddr + 1) chars (fun hmem => hnoNul (List.mem_cons_of_mem _ hmem))
            (Nat.lt_of_succ_lt_succ hfuel) (by
              intro j byte hbyte
              have hload := hloads (j + 1) byte (by simpa [stored] using hbyte)
              rwa [Nat.add_assoc, Nat.add_comm 1 j])
          rw [readString, hchar, ok_bind, dif_neg hne, hrest, ok_bind, pure_eq_ok]

end Strings

/-! ## Copying -/

section Copying

/-- A copy to places that are not among those that are copied. -/
theorem memcpy_spec {table : Table} {dst src count : Nat} {memory : Nat → UInt8}
    {place source : Nat → Nat} (hdst : ∀ j < count, translate table (dst + j) = some (place j))
    (hsrc : ∀ j < count, translate table (src + j) = some (source j))
    (hapart : ∀ j < count, ∀ k < count, place j ≠ source k)
    (hinjective : ∀ j < count, ∀ k < count, place j = place k → j = k) :
    ∃ after, memcpy table memory dst src count = .ok after ∧
      (∀ j < count, after (place j) = memory (source j)) ∧
      ∀ paddr, (∀ j < count, place j ≠ paddr) → after paddr = memory paddr := by
  induction count with
  | zero => exact ⟨memory, rfl, fun j hj => absurd hj (Nat.not_lt_zero _), fun _ _ => rfl⟩
  | succ count ih =>
      obtain ⟨between, hcopy, hcopied, hothers⟩ := ih (fun j hj => hdst j (by omega))
        (fun j hj => hsrc j (by omega)) (fun j hj k hk => hapart j (by omega) k (by omega))
        (fun j hj k hk => hinjective j (by omega) k (by omega))
      refine ⟨Function.update between (place count) (between (source count)), ?_, ?_, ?_⟩
      · rw [memcpy, hcopy, ok_bind, hdst count (by omega), hsrc count (by omega)]
        rfl
      · intro j hj
        have hkept : between (source count) = memory (source count) :=
          hothers _ fun k hk => hapart k (by omega) count (by omega)
        by_cases heq : j = count
        · rw [heq, Function.update_self, hkept]
        · have hne : place j ≠ place count :=
            fun hsame => heq (hinjective j hj count (by omega) hsame)
          rw [Function.update_of_ne hne]
          exact hcopied j (by omega)
      · intro paddr hout
        rw [Function.update_of_ne (hout count (by omega)).symm]
        exact hothers paddr fun j hj => hout j (by omega)

/-- A string of the kernel outside of a buffer: where its bytes are. -/
structure Source (table : Table) (memory : Nat → UInt8) (size : Nat) (place : Nat → Nat)
    (arg : Nat) (string : Path) : Prop where
  bounded : arg + (stored string).length ≤ 2 ^ 48
  bytes : ∀ j byte, (stored string)[j]? = some byte → ∃ paddr,
    translate table (arg + j) = some paddr ∧ memory paddr = byte ∧ ∀ i < size, place i ≠ paddr

variable {table : Table} {memory between : Nat → UInt8} {size : Nat} {place : Nat → Nat}
  {arg : Nat} {string : Path} {state : Pman.State} {kernel : Context}

/-- Stores into the buffer leave the string. -/
theorem Source.congr (hsource : Source table memory size place arg string)
    (hkept : ∀ paddr, (∀ i < size, place i ≠ paddr) → between paddr = memory paddr) :
    Source table between size place arg string := by
  refine ⟨hsource.bounded, fun j byte hbyte => ?_⟩
  obtain ⟨paddr, haddress, hmemory, hout⟩ := hsource.bytes j byte hbyte
  exact ⟨paddr, haddress, (hkept paddr hout).trans hmemory, hout⟩

theorem Source.stringAt (hkernel : state.contexts kernelContext = some kernel)
    (hsource : Source kernel.table state.memory size place arg string) :
    Pman.stringAt state arg = .ok string := by
  obtain ⟨hbounded, hbytes⟩ := hsource
  rw [stored_length] at hbounded
  refine readString_of_loads (by omega) fun j byte hbyte => ?_
  obtain ⟨paddr, haddress, hmemory, _⟩ := hbytes j byte hbyte
  have hj := (List.getElem?_eq_some_iff.mp hbyte).1
  rw [stored_length] at hj
  have hword : u64 (arg + j) = arg + j := by
    unfold u64
    omega
  rw [loadByte, kernelAddress, State.context_eq_ok.mpr hkernel, ok_bind, hword, haddress]
  exact congrArg Except.ok hmemory

/-- The strings are in the buffer, one behind the other, and nothing else has changed. -/
theorem copyStrings_spec {kernBuf userBuf pos : Nat} {args : List Nat} {strings : List Path}
    (hkernel : state.contexts kernelContext = some kernel)
    (hbuffer : ∀ i < size, translate kernel.table (kernBuf + i) = some (place i))
    (hinjective : ∀ i < size, ∀ j < size, place i = place j → i = j)
    (hstrings : List.Forall₂ (Source kernel.table state.memory size place) args strings)
    (hfits : pos + (packed strings).length ≤ size) :
    ∃ memory, copyStrings kernBuf userBuf pos state args =
        .ok (offsets (userBuf + pos) strings, { state with memory }) ∧
      (∀ k byte, (packed strings)[k]? = some byte → memory (place (pos + k)) = byte) ∧
      ∀ paddr, (∀ i < size, pos ≤ i → place i ≠ paddr) → memory paddr = state.memory paddr := by
  induction strings generalizing args pos state with
  | nil =>
      cases hstrings
      exact ⟨state.memory, rfl, fun k byte hbyte => absurd hbyte (by simp [packed]),
        fun _ _ => rfl⟩
  | cons string strings ih =>
      obtain ⟨arg, args, hsource, hrestStrings, rfl⟩ := List.forall₂_cons_right_iff.mp hstrings
      rw [packed_cons, List.length_append, stored_length] at hfits
      have hbyte : ∀ j < string.chars.length + 1, (stored string)[j]? =
          some ((stored string).getD j 0) := by
        intro j hj
        rw [List.getD_eq_getElem?_getD, List.getElem?_eq_getElem (by simpa using hj),
          Option.getD_some]
      have hread : ∀ j, ∃ paddr, j < string.chars.length + 1 →
          translate kernel.table (arg + j) = some paddr ∧
          state.memory paddr = (stored string).getD j 0 ∧ ∀ i < size, place i ≠ paddr := by
        intro j
        by_cases hj : j < string.chars.length + 1
        · obtain ⟨paddr, haddress⟩ := hsource.bytes j _ (hbyte j hj)
          exact ⟨paddr, fun _ => haddress⟩
        · exact ⟨0, fun h => absurd h hj⟩
      choose source hsourceBytes using hread
      obtain ⟨copied, hcopy, hcopied, hothers⟩ := @memcpy_spec kernel.table (kernBuf + pos) arg
        (string.chars.length + 1) state.memory (fun j => place (pos + j)) source
        (fun j hj => Nat.add_assoc kernBuf pos j ▸ hbuffer (pos + j) (by omega))
        (fun j hj => (hsourceBytes j hj).1)
        (fun j hj k hk => (hsourceBytes k hk).2.2 (pos + j) (by omega))
        (fun j hj k hk hsame => by
          have := hinjective (pos + j) (by omega) (pos + k) (by omega) hsame
          omega)
      have hkept : ∀ paddr, (∀ i < size, place i ≠ paddr) → copied paddr = state.memory paddr :=
        fun paddr hout => hothers paddr fun j hj => hout (pos + j) (by omega)
      obtain ⟨memory, hrest, hbytes, hlater⟩ := @ih { state with memory := copied }
        (pos + string.chars.length + 1) args hkernel
        (hrestStrings.imp fun _ _ hother => hother.congr hkept) (by omega)
      refine ⟨memory, ?_, ?_, ?_⟩
      · rw [copyStrings, hsource.stringAt hkernel]
        simp only [ok_bind, State.context_eq_ok.mpr hkernel, hcopy, hrest, pure_eq_ok]
        rw [offsets, stored_length, Nat.add_assoc pos, ← Nat.add_assoc userBuf]
      · intro k byte hpacked
        rw [packed_cons] at hpacked
        by_cases hk : k < string.chars.length + 1
        · rw [List.getElem?_append_left (by simpa using hk)] at hpacked
          have hplace : memory (place (pos + k)) = copied (place (pos + k)) := by
            refine hlater _ fun i hi hlow hsame => ?_
            have := hinjective i hi (pos + k) (by omega) hsame
            omega
          rw [hplace, hcopied k hk, (hsourceBytes k hk).2.1]
          exact Option.some.inj ((hbyte k hk).symm.trans hpacked)
        · rw [List.getElem?_append_right (by simp; omega), stored_length] at hpacked
          have hrestByte := hbytes (k - (string.chars.length + 1)) byte hpacked
          rwa [show pos + string.chars.length + 1 + (k - (string.chars.length + 1)) = pos + k by
            omega] at hrestByte
      · intro paddr hout
        rw [hlater paddr fun i hi hlow => hout i hi (by omega)]
        exact hothers paddr fun j hj => hout (pos + j) (by omega) (by omega)

end Copying

end PKernel.Programs
