import PKernel.Machine

/-! # The list of devices

`device.c`: a device is a node at the head of a list. The loop of `device_remove` does not go on
from the node it starts with.
-/

namespace PKernel.Devices

/-- `device_type_t`. -/
inductive DeviceType where
  | character
  | block
deriving DecidableEq, Repr

/-- `device_node_t`, which goes by its address. -/
structure Device where
  address : Nat
  type : DeviceType
  name : List UInt8
deriving DecidableEq, Repr

/-- The list from `devices_head.next` on, and the address of the next node. -/
structure DeviceList where
  nodes : List Device
  next : Nat
deriving DecidableEq, Repr

/-- `device_init`. -/
def deviceInit : DeviceList := ⟨[], 0⟩

/-- What `device_create_char` and `device_create_block` do alike. -/
def deviceCreate (type : DeviceType) (devices : DeviceList) (name : List UInt8) :
    Device × DeviceList :=
  let device : Device := ⟨devices.next, type, name⟩
  (device, ⟨device :: devices.nodes, devices.next + 1⟩)

/-- `device_create_char`. -/
def deviceCreateChar : DeviceList → List UInt8 → Device × DeviceList := deviceCreate .character

/-- `device_create_block`. -/
def deviceCreateBlock : DeviceList → List UInt8 → Device × DeviceList := deviceCreate .block

/-- The loop of `device_remove` at a node. -/
def removeLoop (device : Nat) : Nat → List Device → Except Fault Bool
  | 0, _ => .error .nontermination
  | _ + 1, [] => .ok false
  | fuel + 1, node :: rest =>
      if node.address = device then .ok true
      -- `node` stays as it is
      else removeLoop device fuel (node :: rest)

/-- `device_remove`, which leaves the list as it is. -/
def deviceRemove (fuel : Nat) (devices : DeviceList) (device : Nat) : Except Fault Bool :=
  removeLoop device fuel devices.nodes

/-- `device_remove` returns, and says whether the device was there. -/
def Removes (devices : DeviceList) (device : Nat) : Prop :=
  ∃ fuel found, deviceRemove fuel devices device = .ok found ∧
    (found = true ↔ device ∈ devices.nodes.map Device.address)

section Remove

variable {devices : DeviceList} {device : Nat} {node : Device} {rest : List Device}

/-- Nothing changes from one round to the next. -/
theorem removeLoop_stuck (hne : node.address ≠ device) (fuel : Nat) :
    removeLoop device fuel (node :: rest) = .error .nontermination := by
  induction fuel with
  | zero => rfl
  | succ fuel ih => rw [removeLoop, if_neg hne, ih]

/-- The device that was added last is found at once. -/
theorem deviceRemove_first (hnodes : devices.nodes = node :: rest) (fuel : Nat) :
    deviceRemove (fuel + 1) devices node.address = .ok true := by
  rw [deviceRemove, hnodes, removeLoop, if_pos rfl]

/-- `device_remove` does not get beyond the first node. -/
theorem removes_iff : Removes devices device ↔
    devices.nodes = [] ∨ ∃ node rest, devices.nodes = node :: rest ∧ node.address = device := by
  constructor
  · rintro ⟨fuel, found, hcall, -⟩
    cases hnodes : devices.nodes with
    | nil => exact .inl rfl
    | cons node rest =>
        refine .inr ⟨node, rest, rfl, ?_⟩
        by_contra hne
        rw [deviceRemove, hnodes, removeLoop_stuck hne] at hcall
        cases hcall
  · rintro (hempty | ⟨node, rest, hnodes, rfl⟩)
    · refine ⟨1, false, ?_, ?_⟩
      · rw [deviceRemove, hempty]
        rfl
      · rw [hempty]
        simp
    · refine ⟨1, true, deviceRemove_first hnodes 0, ?_⟩
      rw [hnodes]
      simp

end Remove

/-- A terminal and a disc that was added after it. -/
def terminalAndDisc : DeviceList :=
  (deviceCreateBlock (deviceCreateChar deviceInit [116, 116, 121, 48]).2 [100, 105, 115, 99, 48]).2

/-- The terminal is at the second node, and is not removed. -/
theorem not_removes : ¬∀ devices device, Removes devices device := by
  intro hremoves
  obtain ⟨fuel, found, hcall, -⟩ := hremoves terminalAndDisc 0
  have hstuck : deviceRemove fuel terminalAndDisc 0 = .error .nontermination :=
    removeLoop_stuck (by decide) fuel
  rw [hstuck] at hcall
  cases hcall

end PKernel.Devices
