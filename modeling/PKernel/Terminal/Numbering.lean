import Mathlib.Data.List.Nodup
import Mathlib.Order.Bounds.Defs
import PKernel.Devices.DeviceList
import PKernel.Strings.Writestr

/-! # The numbers of terminals

`tty_init` looks for a number along the list of terminals, and starts again at its head with the
next number each time it meets the one it has. `tty_free` takes a terminal out of the list before it
calls functions that may not return.
-/

namespace PKernel.Terminals

open Devices (DeviceList)

/-- The fields of `tty_t` that `tty_init` and `tty_free` use, and its address. -/
structure Tty where
  address : Nat
  ttyNum : Nat
  device : Nat
deriving DecidableEq, Repr

/-- The list from `tty_head.next` on, the devices, and the address of the next terminal. -/
structure State where
  ttys : List Tty
  devices : DeviceList
  next : Nat
deriving DecidableEq, Repr

/-- The numbers in use. -/
def numbers (ttys : List Tty) : List Nat := ttys.map Tty.ttyNum

/-- `ttys_init`. -/
def ttysInit (devices : DeviceList) : State := ⟨[], devices, 0⟩

/-- The loop of `tty_init` with the rest of the list in front of it. The number does not wrap: there
are more numbers than terminals in memory. -/
def searchLoop (ttys : List Tty) : Nat → List Tty → Nat → Except Fault Nat
  | 0, _, _ => .error .nontermination
  | _ + 1, [], ttyNum => .ok ttyNum
  | fuel + 1, tty :: rest, ttyNum =>
      -- `tty = &tty_head`, and then the step of the loop
      if tty.ttyNum = ttyNum then searchLoop ttys fuel ttys (ttyNum + 1)
      else searchLoop ttys fuel rest ttyNum

/-- `"tty"` and the number, in the 100 bytes of `name`. -/
def deviceName (ttyNum : Nat) : Except Fault (List UInt8) := do
  let (size, digits) ← Strings.writestr (fun _ => 0) (99 - 3) 0 ttyNum
  return [116, 116, 121] ++ (List.range size).map digits

/-- `tty_init`. -/
def ttyInit (fuel : Nat) (state : State) : Except Fault State := do
  let ttyNum ← searchLoop state.ttys fuel state.ttys 0
  let (device, devices) := Devices.deviceCreateChar state.devices (← deviceName ttyNum)
  return ⟨⟨state.next, ttyNum, device.address⟩ :: state.ttys, devices, state.next + 1⟩

/-- `tty_free` up to the unlinked terminal. A pointer to no terminal of the list is a bad one. -/
def unlink (state : State) (tty : Nat) : Except Fault (Tty × State) :=
  match state.ttys.find? fun node => node.address = tty with
  | none => .error .badPointer
  | some node => .ok (node, { state with ttys := state.ttys.erase node })

inductive Call where
  | init
  | free (tty : Nat)
deriving DecidableEq, Repr

/-- A call: why it does not return, and the state, which `tty_free` has changed by then. -/
def Call.perform (fuel : Nat) (state : State) : Call → Option Fault × State
  | init =>
      match ttyInit fuel state with
      | .error fault => (some fault, state)
      | .ok state => (none, state)
  | free tty =>
      match unlink state tty with
      | .error fault => (some fault, state)
      | .ok (tty, state) =>
          match Devices.deviceRemove fuel state.devices tty.device with
          | .error fault => (some fault, state)
          | .ok _ => (none, state)

/-- Calls up to the first that does not return. -/
def run (fuel : Nat) : List Call → State → Option Fault × State
  | [], state => (none, state)
  | call :: rest, state =>
      match call.perform fuel state with
      | (some fault, state) => (some fault, state)
      | (none, state) => run fuel rest state

/-! ## The search -/

section Search

variable {ttys passed rest : List Tty} {fuel ttyNum found : Nat}

/-- All smaller numbers are in use, and the number is not that of a terminal before this place. -/
structure Searching (ttys passed rest : List Tty) (ttyNum : Nat) : Prop where
  split : ttys = passed ++ rest
  below : ∀ number < ttyNum, number ∈ numbers ttys
  fresh : ttyNum ∉ numbers passed

theorem searching_start (ttys : List Tty) : Searching ttys [] ttys 0 :=
  ⟨rfl, fun _ hlt => absurd hlt (Nat.not_lt_zero _), List.not_mem_nil⟩

theorem Searching.restart {tty : Tty} (hsearching : Searching ttys passed (tty :: rest) tty.ttyNum) :
    Searching ttys [] ttys (tty.ttyNum + 1) := by
  refine ⟨rfl, fun number hlt => ?_, List.not_mem_nil⟩
  rcases Nat.lt_succ_iff_lt_or_eq.mp hlt with hlower | rfl
  · exact hsearching.below number hlower
  · rw [hsearching.split]
    simp [numbers]

theorem Searching.next {tty : Tty} (hsearching : Searching ttys passed (tty :: rest) ttyNum)
    (hne : tty.ttyNum ≠ ttyNum) : Searching ttys (passed ++ [tty]) rest ttyNum := by
  refine ⟨by rw [hsearching.split, List.append_assoc, List.singleton_append], hsearching.below, ?_⟩
  rw [numbers, List.map_append, List.mem_append, not_or]
  exact ⟨hsearching.fresh, fun hmem => hne (List.mem_singleton.mp hmem).symm⟩

/-- What the search ends with is the least number that is not in use. -/
theorem Searching.isLeast (hsearching : Searching ttys passed rest ttyNum)
    (hsearch : searchLoop ttys fuel rest ttyNum = .ok found) :
    IsLeast {number | number ∉ numbers ttys} found := by
  induction fuel generalizing passed rest ttyNum with
  | zero => cases hsearch
  | succ fuel ih =>
      cases rest with
      | nil =>
          cases hsearch
          have hpassed := hsearching.split
          rw [List.append_nil] at hpassed
          refine ⟨by rw [hpassed]; exact hsearching.fresh, fun number hnumber => ?_⟩
          by_contra hlt
          exact hnumber (hsearching.below number (Nat.not_le.mp hlt))
      | cons tty rest =>
          rw [searchLoop] at hsearch
          split at hsearch
          next hsame =>
            subst hsame
            exact ih hsearching.restart hsearch
          next hne => exact ih (hsearching.next hne) hsearch

/-- How many terminals have the number or a greater one. -/
def above (ttys : List Tty) (ttyNum : Nat) : Nat := ttys.countP fun tty => ttyNum ≤ tty.ttyNum

theorem above_lt {tty : Tty} (hmem : tty ∈ ttys) : above ttys (tty.ttyNum + 1) < above ttys tty.ttyNum := by
  unfold above
  induction ttys with
  | nil => cases hmem
  | cons head tail ih =>
      have htail : (tail.countP fun other => tty.ttyNum + 1 ≤ other.ttyNum) ≤
          tail.countP fun other => tty.ttyNum ≤ other.ttyNum :=
        List.countP_mono_left fun other _ hle => by
          simp only [decide_eq_true_eq] at hle ⊢
          omega
      rw [List.countP_cons, List.countP_cons]
      rcases List.mem_cons.mp hmem with rfl | hmem
      · simp only [decide_eq_true_eq]
        rw [if_neg (by omega), if_pos (Nat.le_refl _)]
        omega
      · have hrest := ih hmem
        simp only [decide_eq_true_eq]
        split <;> split <;> omega

/-- A restart leaves fewer terminals above the number, and a step less of the list. -/
theorem searchLoop_returns (hsuffix : rest <:+ ttys) :
    ∃ fuel found, searchLoop ttys fuel rest ttyNum = .ok found := by
  induction hcount : above ttys ttyNum using Nat.strongRecOn generalizing rest ttyNum with
  | ind count ih =>
      induction rest with
      | nil => exact ⟨1, ttyNum, rfl⟩
      | cons tty rest ihRest =>
          by_cases hsame : tty.ttyNum = ttyNum
          · subst hsame
            have hmem : tty ∈ ttys := hsuffix.subset List.mem_cons_self
            obtain ⟨fuel, found, hsearch⟩ :=
              ih _ (hcount ▸ above_lt hmem) (List.suffix_refl ttys) rfl
            exact ⟨fuel + 1, found, by rw [searchLoop, if_pos rfl, hsearch]⟩
          · obtain ⟨fuel, found, hsearch⟩ :=
              ihRest ((List.suffix_cons tty rest).trans hsuffix)
            exact ⟨fuel + 1, found, by rw [searchLoop, if_neg hsame, hsearch]⟩

end Search

/-! ## Runs -/

section Runs

variable {fuel : Nat} {state next : State}

theorem ttyInit_nodup (hnodup : (numbers state.ttys).Nodup) (hcall : ttyInit fuel state = .ok next) :
    (numbers next.ttys).Nodup := by
  obtain ⟨ttyNum, hsearch, hrest⟩ := bind_eq_ok.mp hcall
  obtain ⟨name, -, hnext⟩ := bind_eq_ok.mp hrest
  cases hnext
  exact List.nodup_cons.mpr ⟨((searching_start state.ttys).isLeast hsearch).1, hnodup⟩

theorem unlink_nodup {address : Nat} {tty : Tty} (hnodup : (numbers state.ttys).Nodup)
    (hcall : unlink state address = .ok (tty, next)) : (numbers next.ttys).Nodup := by
  unfold unlink at hcall
  split at hcall
  next => cases hcall
  next node _ =>
    cases hcall
    exact hnodup.sublist (List.erase_sublist.map Tty.ttyNum)

theorem perform_nodup (hnodup : (numbers state.ttys).Nodup) (call : Call) :
    (numbers (call.perform fuel state).2.ttys).Nodup := by
  cases call with
  | init =>
      rw [Call.perform]
      split
      next => exact hnodup
      next next hcall => exact ttyInit_nodup hnodup hcall
  | free address =>
      rw [Call.perform]
      split
      next => exact hnodup
      next tty next hcall =>
        have hnext := unlink_nodup hnodup hcall
        split
        next => exact hnext
        next => exact hnext

theorem run_nodup (hnodup : (numbers state.ttys).Nodup) (calls : List Call) :
    (numbers (run fuel calls state).2.ttys).Nodup := by
  induction calls generalizing state with
  | nil => exact hnodup
  | cons call rest ih =>
      have hnext := @perform_nodup fuel state hnodup call
      rw [run]
      split
      next heq => rwa [heq] at hnext
      next heq =>
        rw [heq] at hnext
        exact ih hnext

end Runs

/-- The search ends with the least number that no terminal of the list has, in whatever order they
are there, and after any calls the terminals have different numbers, also where one of the calls
does not return. -/
theorem numbering (devices : DeviceList) :
    (∀ ttys : List Tty, ∃ fuel found, searchLoop ttys fuel ttys 0 = .ok found ∧
      IsLeast {number | number ∉ numbers ttys} found) ∧
    ∀ fuel calls, (numbers (run fuel calls (ttysInit devices)).2.ttys).Nodup := by
  refine ⟨fun ttys => ?_, fun fuel calls =>
    @run_nodup fuel (ttysInit devices) List.nodup_nil calls⟩
  obtain ⟨fuel, found, hsearch⟩ := @searchLoop_returns ttys ttys 0 (List.suffix_refl ttys)
  exact ⟨fuel, found, hsearch, (searching_start ttys).isLeast hsearch⟩

end PKernel.Terminals
