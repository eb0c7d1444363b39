import PKernel.Filesystem.Paths
import PKernel.Library.ByteMemory
import PKernel.Paging.Operations

/-! # The kernel's view of a process

The kernel reads and writes the memory of a process through the roots of its mappings, at
addresses of its own. Over a stretch of addresses that lead to different places these accesses are
those of a byte memory.
-/

namespace PKernel.Pman

open Library.ByteMemory
open Vfs (Path)
open Function (update update_of_ne update_self)

section Code

/-- The physical address that the kernel reaches at one of its own. -/
def kernelAddress (state : State) (vaddr : Nat) : Except Fault Nat := do
  let kernel ← state.context kernelContext
  match translate kernel.table (u64 vaddr) with
  | some paddr => return paddr
  | none => throw .badPointer

def loadByte (state : State) (vaddr : Nat) : Except Fault UInt8 := do
  return state.memory (← kernelAddress state vaddr)

def storeByte (state : State) (vaddr : Nat) (byte : UInt8) : Except Fault State := do
  let paddr ← kernelAddress state vaddr
  return { state with memory := update state.memory paddr byte }

/-- The number in the bytes from an address on. -/
def loadBytes (state : State) (vaddr : Nat) : Nat → Except Fault Nat
  | 0 => .ok 0
  | count + 1 => do
      let low ← loadByte state vaddr
      let high ← loadBytes state (vaddr + 1) count
      return low.toNat + 256 * high

/-- Stores the low bytes of a number. -/
def storeBytes (value : Nat) (vaddr : Nat) : Nat → State → Except Fault State
  | 0, state => .ok state
  | count + 1, state => do
      let state ← storeByte state vaddr (UInt8.ofNat value)
      storeBytes (value / 256) (vaddr + 1) count state

def loadWord (state : State) (vaddr : Nat) : Except Fault Nat := loadBytes state vaddr 8

def storeWord (state : State) (vaddr value : Nat) : Except Fault State :=
  storeBytes value vaddr 8 state

/-- The string at an address, which a NUL ends. -/
def readString (state : State) : Nat → Nat → Except Fault Path
  | 0, _ => throw .nontermination
  | fuel + 1, vaddr => do
      let char ← loadByte state vaddr
      if hchar : char = 0 then return ⟨[], List.not_mem_nil⟩
      else
        let rest ← readString state fuel (vaddr + 1)
        return ⟨char :: rest.chars, by simpa [Ne.symm hchar] using rest.noNul⟩

/-- The string at an address of the kernel. -/
def stringAt (state : State) (vaddr : Nat) : Except Fault Path :=
  readString state (2 ^ 64) vaddr

/-- `process_user_to_kernel`. Its loop is that of `pman_context_get_vaddr`. -/
def processUserToKernel (state : State) (context userVaddr : Nat) :
    Except Fault (Option Nat) := do
  match ← getVaddr state context userVaddr with
  | none => return none
  | some id =>
      let mapping ← state.mapping id
      let root ← state.mapping (← state.root id)
      return some (userVaddr - mapping.vaddr + root.vaddr)

/-- The same as a pointer: `NULL` is 0. -/
def kernelPointer (state : State) (context userVaddr : Nat) : Except Fault Nat := do
  return (← processUserToKernel state context userVaddr).getD 0

/-- Stores words one after the other. -/
def storeWords : Nat → List Nat → State → Except Fault State
  | _, [], state => .ok state
  | vaddr, word :: words, state => do
      let state ← storeWord state vaddr word
      storeWords (vaddr + 8) words state

def loadWords (state : State) : Nat → Nat → Except Fault (List Nat)
  | _, 0 => .ok []
  | vaddr, count + 1 => do
      let word ← loadWord state vaddr
      let words ← loadWords state (vaddr + 8) count
      return word :: words

end Code

/-! ## The mapping of an address -/

/-- An address is in a live mapping. -/
def State.within (state : State) (vaddr id : Nat) : Bool :=
  match state.mappings id with
  | some mapping =>
      decide (mapping.vaddr ≤ vaddr ∧ vaddr < mapping.vaddr + mapping.sizePages * pageSize)
  | none => false

theorem State.within_iff {state : State} {vaddr id : Nat} :
    state.within vaddr id = true ↔ ∃ mapping, state.mappings id = some mapping ∧
      mapping.vaddr ≤ vaddr ∧ vaddr < mapping.vaddr + mapping.sizePages * pageSize := by
  unfold State.within
  cases state.mappings id with
  | none => simp
  | some mapping => simp

theorem getVaddr_eq_find? {state : State} {context : Nat} {target : Context} (vaddr : Nat)
    (htarget : state.contexts context = some target) :
    getVaddr state context vaddr = .ok (target.mappings.find? (state.within vaddr)) := by
  rw [getVaddr, State.context_eq_ok.mpr htarget]
  rfl

variable {state next : State} {start count : Nat} {place : Nat → Nat}

/-! ## What stores change -/

theorem storeByte_frame {vaddr : Nat} {byte : UInt8}
    (hcall : storeByte state vaddr byte = .ok next) : ∃ memory, next = { state with memory } := by
  obtain ⟨paddr, _, hnext⟩ := bind_eq_ok.mp hcall
  exact ⟨_, (Except.ok.inj hnext).symm⟩

theorem storeBytes_frame {value vaddr count : Nat}
    (hcall : storeBytes value vaddr count state = .ok next) :
    ∃ memory, next = { state with memory } := by
  induction count generalizing value vaddr state with
  | zero => exact ⟨state.memory, (Except.ok.inj hcall).symm⟩
  | succ count ih =>
      obtain ⟨between, hbyte, hrest⟩ := bind_eq_ok.mp hcall
      obtain ⟨_, rfl⟩ := storeByte_frame hbyte
      obtain ⟨memory, rfl⟩ := ih hrest
      exact ⟨memory, rfl⟩

/-- Bytes that none of the addresses leads to stay as they are. -/
theorem storeBytes_outside {value vaddr count paddr : Nat}
    (hcall : storeBytes value vaddr count state = .ok next)
    (hout : ∀ i < count, kernelAddress state (vaddr + i) ≠ .ok paddr) :
    next.memory paddr = state.memory paddr := by
  induction count generalizing value vaddr state with
  | zero => rw [Except.ok.inj hcall]
  | succ count ih =>
      obtain ⟨between, hbyte, hrest⟩ := bind_eq_ok.mp hcall
      obtain ⟨reached, hreached, hbetween⟩ := bind_eq_ok.mp hbyte
      cases hbetween
      have hne : paddr ≠ reached := by
        rintro rfl
        exact hout 0 (Nat.zero_lt_succ _) hreached
      have hlater := ih hrest fun i hi => by
        have hnext := hout (i + 1) (Nat.succ_lt_succ hi)
        rwa [Nat.add_comm i, ← Nat.add_assoc] at hnext
      exact hlater.trans (update_of_ne hne _ _)

theorem storeWords_outside {vaddr paddr : Nat} {words : List Nat}
    (hcall : storeWords vaddr words state = .ok next)
    (hout : ∀ i < 8 * words.length, kernelAddress state (vaddr + i) ≠ .ok paddr) :
    next.memory paddr = state.memory paddr := by
  induction words generalizing vaddr state with
  | nil => rw [Except.ok.inj hcall]
  | cons word words ih =>
      obtain ⟨between, hword, hrest⟩ := bind_eq_ok.mp hcall
      rw [List.length_cons] at hout
      have hfirst := storeBytes_outside hword fun i hi => hout i (by omega)
      obtain ⟨memory, rfl⟩ := storeBytes_frame hword
      have hlater := ih hrest fun i hi => by
        have hnext := hout (8 + i) (by omega)
        rwa [← Nat.add_assoc] at hnext
      exact hlater.trans hfirst

theorem storeWords_append (vaddr : Nat) (first second : List Nat) (state : State) :
    storeWords vaddr (first ++ second) state =
      storeWords vaddr first state >>= storeWords (vaddr + 8 * first.length) second := by
  induction first generalizing vaddr state with
  | nil => rfl
  | cons word first ih =>
      rw [List.cons_append, storeWords, storeWords, bind_assoc]
      refine bind_congr fun next => ?_
      rw [ih, List.length_cons, Nat.mul_succ, Nat.add_assoc, Nat.add_comm 8]

theorem storeWords_singleton (vaddr word : Nat) (state : State) :
    storeWords vaddr [word] state = storeWord state vaddr word := by
  rw [storeWords]
  cases storeWord state vaddr word <;> rfl

theorem getRootMapping_memory (memory : Nat → UInt8) (fuel id : Nat) :
    getRootMapping { state with memory } fuel id = getRootMapping state fuel id := by
  induction fuel generalizing id with
  | zero => rfl
  | succ fuel ih =>
      have hmapping : ({ state with memory } : State).mapping id = state.mapping id := rfl
      simp only [getRootMapping, hmapping, ih]

/-- Where the kernel looks for the memory of a process does not depend on what is there. -/
theorem processUserToKernel_memory (memory : Nat → UInt8) (context userVaddr : Nat) :
    processUserToKernel { state with memory } context userVaddr =
      processUserToKernel state context userVaddr := by
  have hroot : ∀ id, ({ state with memory } : State).root id = state.root id :=
    getRootMapping_memory memory (state.nextMapping + 1)
  have hmapping : ∀ id, ({ state with memory } : State).mapping id = state.mapping id :=
    fun _ => rfl
  have hfound : getVaddr { state with memory } context userVaddr =
      getVaddr state context userVaddr := rfl
  simp only [processUserToKernel, hfound, hmapping, hroot]

/-! ## A stretch of addresses -/

/-- The words in the bytes from an index on. -/
def wordsAt (bytes : Memory) : Nat → Nat → List Nat
  | _, 0 => []
  | i, count + 1 => loadLE bytes i 8 :: wordsAt bytes (i + 8) count

theorem wordsAt_congr {bytes other : Memory} {i : Nat}
    (hagree : ∀ j, i ≤ j → j < i + 8 * count → bytes j = other j) :
    wordsAt bytes i count = wordsAt other i count := by
  induction count generalizing i with
  | zero => rfl
  | succ count ih =>
      have hhead : loadLE bytes i 8 = loadLE other i 8 := by
        apply loadLE_congr
        intro j hj
        exact hagree j hj.1 (Nat.lt_of_lt_of_le hj.2 (by omega))
      have htail : wordsAt bytes (i + 8) count = wordsAt other (i + 8) count := by
        apply ih
        intro j hlow hhigh
        exact hagree j (by omega) (by omega)
      rw [wordsAt, wordsAt, hhead, htail]

/-- The kernel reaches the bytes from an address on, each at a place of its own. -/
structure Reached (state : State) (start count : Nat) (place : Nat → Nat) : Prop where
  address : ∀ i < count, kernelAddress state (start + i) = .ok (place i)
  apart : ∀ i < count, ∀ j < count, place i = place j → i = j

namespace Reached

theorem congr (hreached : Reached state start count place) (memory : Nat → UInt8) :
    Reached { state with memory } start count place :=
  ⟨hreached.address, hreached.apart⟩

theorem loadByte (hreached : Reached state start count place) {i : Nat} (hi : i < count) :
    Pman.loadByte state (start + i) = .ok (state.memory (place i)) := by
  rw [Pman.loadByte, hreached.address i hi, ok_bind, pure_eq_ok]

/-- A store to one byte leaves the others. -/
theorem storeByte (hreached : Reached state start count place) {i : Nat} (hi : i < count)
    (byte : UInt8) :
    ∃ memory, Pman.storeByte state (start + i) byte = .ok { state with memory } ∧
      ∀ j < count, memory (place j) = update (state.memory ∘ place) i byte j := by
  refine ⟨update state.memory (place i) byte, ?_, ?_⟩
  · rw [Pman.storeByte, hreached.address i hi, ok_bind, pure_eq_ok]
  · intro j hj
    by_cases heq : j = i
    · rw [heq, update_self, update_self]
    · have hne : place j ≠ place i := fun hsame => heq (hreached.apart j hj i hi hsame)
      rw [update_of_ne hne, update_of_ne heq, Function.comp_apply]

theorem loadBytes (hreached : Reached state start count place) (i width : Nat)
    (hfits : i + width ≤ count) :
    Pman.loadBytes state (start + i) width = .ok (loadLE (state.memory ∘ place) i width) := by
  induction width generalizing i with
  | zero => rfl
  | succ width ih =>
      have hrest := ih (i + 1) (by omega)
      rw [← Nat.add_assoc] at hrest
      rw [Pman.loadBytes, hreached.loadByte (by omega), ok_bind, hrest, ok_bind, pure_eq_ok]
      rfl

theorem storeBytes (hreached : Reached state start count place) (i width : Nat)
    (hfits : i + width ≤ count) (value : Nat) :
    ∃ memory, Pman.storeBytes value (start + i) width state = .ok { state with memory } ∧
      ∀ j < count, memory (place j) = storeLE (state.memory ∘ place) i width value j := by
  induction width generalizing i value state with
  | zero =>
      refine ⟨state.memory, rfl, ?_⟩
      intro j _
      rw [storeLE_apply_of_outside (by omega), Function.comp_apply]
  | succ width ih =>
      obtain ⟨between, hbyte, hbetween⟩ :=
        hreached.storeByte (show i < count by omega) (UInt8.ofNat value)
      obtain ⟨memory, hrest, hmemory⟩ :=
        ih (hreached.congr between) (i + 1) (by omega) (value / 256)
      refine ⟨memory, ?_, ?_⟩
      · rw [Pman.storeBytes, hbyte, ok_bind]
        exact hrest
      · intro j hj
        rw [hmemory j hj]
        by_cases hin : i + 1 ≤ j ∧ j < i + 1 + width
        · rw [storeLE_succ_eqOn (state.memory ∘ place) i width value hin, storeLE, storeLE,
            if_pos hin, if_pos hin]
        · rw [storeLE, if_neg hin]
          refine (hbetween j hj).trans ?_
          by_cases heq : j = i
          · rw [heq, update_self, storeLE, if_pos (by omega)]
            simp
          · rw [update_of_ne heq, storeLE, if_neg (by omega)]

theorem loadWords (hreached : Reached state start count place) (i number : Nat)
    (hfits : i + 8 * number ≤ count) :
    Pman.loadWords state (start + i) number =
      .ok (wordsAt (state.memory ∘ place) i number) := by
  induction number generalizing i with
  | zero => rfl
  | succ number ih =>
      have hrest := ih (i + 8) (by omega)
      rw [← Nat.add_assoc] at hrest
      rw [Pman.loadWords, loadWord, hreached.loadBytes i 8 (by omega), ok_bind, hrest, ok_bind,
        pure_eq_ok]
      rfl

/-- What was stored is there, and the rest is as before. -/
theorem storeWords (hreached : Reached state start count place) (i : Nat) {words : List Nat}
    (hwords : ∀ word ∈ words, word < 2 ^ 64) (hfits : i + 8 * words.length ≤ count) :
    ∃ memory, Pman.storeWords (start + i) words state = .ok { state with memory } ∧
      wordsAt (memory ∘ place) i words.length = words ∧
      ∀ j < count, j < i ∨ i + 8 * words.length ≤ j → memory (place j) = state.memory (place j) := by
  induction words generalizing i state with
  | nil => exact ⟨state.memory, rfl, rfl, fun _ _ _ => rfl⟩
  | cons word words ih =>
      rw [List.length_cons] at hfits
      obtain ⟨between, hstore, hbetween⟩ := hreached.storeBytes i 8 (by omega) word
      obtain ⟨memory, hrest, hholds, hmemory⟩ := ih (hreached.congr between) (i + 8)
        (fun other hother => hwords other (List.mem_cons_of_mem _ hother)) (by omega)
      refine ⟨memory, ?_, ?_, ?_⟩
      · rw [Pman.storeWords, storeWord, hstore, ok_bind]
        exact hrest
      · have hhead : loadLE (memory ∘ place) i 8 = word := by
          calc loadLE (memory ∘ place) i 8
            _ = loadLE (storeLE (state.memory ∘ place) i 8 word) i 8 := by
              apply loadLE_congr
              intro j hj
              have hlow := hj.1
              have hhigh := hj.2
              exact (hmemory j (by omega) (by omega)).trans (hbetween j (by omega))
            _ = word % 256 ^ 8 := loadLE_storeLE_same _ i 8 word
            _ = word := Nat.mod_eq_of_lt (hwords word List.mem_cons_self)
        rw [List.length_cons, wordsAt, hhead, hholds]
      · intro j hj hout
        rw [List.length_cons] at hout
        refine (hmemory j hj (by omega)).trans ((hbetween j hj).trans ?_)
        rw [storeLE_apply_of_outside (by omega), Function.comp_apply]

end Reached

end PKernel.Pman
