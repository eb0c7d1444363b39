import PKernel.Devices.DeviceList
import PKernel.Discs.Pio
import PKernel.Io.Arbitrator
import PKernel.Strings.Writestr

/-! # Probing for discs

`pci_probe` of `disc_pio.c`: the ports of the two channels of an IDE controller are reserved one by
one, and the drives that are present become devices. A port that is taken ends the probe, and the
ports before it stay reserved.
-/

namespace PKernel.Pio

open Devices (DeviceList)
open Io (Arbitrator Port)

/-- `pci_probe_result_t`. -/
inductive PciProbeResult where
  | ignore
  | bind
deriving DecidableEq, Repr

/-- `pci_device_t`: whether its class and subclass are those of an IDE controller, and what
`pci_read_bar` reads at its address. -/
structure PciDevice where
  isIdeController : Bool
  readBar : Nat → Nat

/-- The reserved ports, `ide_devices` and the devices. -/
structure Probing where
  ports : Arbitrator
  ideDevices : List IdeDevice
  devices : DeviceList

/-- `pci_read_bar(device->address, bar) & ~0b11` as a `port_t`, or the port that stands for 0. -/
def barPort (device : PciDevice) (bar : Nat) (standard : Port) : Port :=
  let port := UInt16.ofNat (device.readBar bar / 4 * 4)
  if port = 0 then standard else port

/-- `ATA_PIO_PRIMARY`. -/
def ataPioPrimary : Port := 0x1F0

/-- `ATA_PIO_SECONDARY`. -/
def ataPioSecondary : Port := 0x170

/-- `ATA_PIO_PRIMARY_CONTROL`. -/
def ataPioPrimaryControl : Port := 0x3F6

/-- `ATA_PIO_SECONDARY_CONTROL`. -/
def ataPioSecondaryControl : Port := 0x376

/-- `add_ide_device`. What `disc_present` finds is a parameter. -/
def addIdeDevice (present : Port → Port → DeviceDrive → Bool) (probing : Probing)
    (ioPort controlPort : Port) (drive : DeviceDrive) : Except Fault Probing :=
  if present ioPort controlPort drive then do
    let (size, digits) ← Strings.writestr (fun _ => 0) 25 0 probing.ideDevices.length
    let name := [100, 105, 115, 99] ++ (List.range size).map digits
    return { probing with
      ideDevices := probing.ideDevices ++ [⟨ioPort.toNat, controlPort.toNat, drive⟩]
      devices := (Devices.deviceCreateBlock probing.devices name).2 }
  else .ok probing

/-- One of the two blocks of `pci_probe`: whether it came to its end. -/
def bindChannel (present : Port → Port → DeviceDrive → Bool) (probing : Probing)
    (discIoPort discControlPort : Port) : Except Fault (Bool × Probing) :=
  match Io.ioArbitratorReserve probing.ports discIoPort with
  | (false, ports) => .ok (false, { probing with ports })
  | (true, ports) =>
      match Io.ioArbitratorReserve ports discControlPort with
      | (false, ports) => .ok (false, { probing with ports })
      | (true, ports) => do
          let probing ← addIdeDevice present { probing with ports } discIoPort discControlPort .master
          let probing ← addIdeDevice present probing discIoPort discControlPort .slave
          return (true, probing)

/-- `pci_probe`. -/
def pciProbe (present : Port → Port → DeviceDrive → Bool) (probing : Probing) (device : PciDevice) :
    Except Fault (PciProbeResult × Probing) :=
  if device.isIdeController then do
    let (bound, probing) ← bindChannel present probing (barPort device 0 ataPioPrimary)
      (barPort device 1 ataPioPrimaryControl)
    if !bound then return (.ignore, probing)
    let (bound, probing) ← bindChannel present probing (barPort device 2 ataPioSecondary)
      (barPort device 3 ataPioSecondaryControl)
    if !bound then return (.ignore, probing)
    return (.bind, probing)
  else .ok (.ignore, probing)

/-- A port is reserved. -/
def Probing.reserved (probing : Probing) (port : Port) : Prop :=
  Io.ioArbitratorTestReserved probing.ports port = true

/-- The ports of a controller, in the order in which they are reserved. -/
def controllerPorts (device : PciDevice) : List Port :=
  [barPort device 0 ataPioPrimary, barPort device 1 ataPioPrimaryControl,
    barPort device 2 ataPioSecondary, barPort device 3 ataPioSecondaryControl]

/-- A probe that refuses a device leaves the reserved ports as they were. -/
def RefusesCleanly (present : Port → Port → DeviceDrive → Bool) (probing : Probing)
    (device : PciDevice) : Prop :=
  ∃ result after, pciProbe present probing device = .ok (result, after) ∧
    (result = .ignore → ∀ port, after.reserved port ↔ probing.reserved port)

/-! ## Channels -/

section Channels

variable {present : Port → Port → DeviceDrive → Bool} {probing : Probing} {device : PciDevice}
  {ioPort controlPort : Port} {drive : DeviceDrive}

/-- Drives have no part in the ports. -/
theorem addIdeDevice_ports (probing : Probing) :
    ∃ after, addIdeDevice present probing ioPort controlPort drive = .ok after ∧
      after.ports = probing.ports := by
  unfold addIdeDevice
  split
  next =>
    obtain ⟨size, digits, hname⟩ := @Strings.writestr_returns 25 (by decide) (by decide) (fun _ => 0)
      probing.ideDevices.length
    rw [hname, ok_bind]
    exact ⟨_, rfl, rfl⟩
  next => exact ⟨probing, rfl, rfl⟩

/-- A channel is bound if its two ports are free, and the ports up to the first that is not free
stay reserved. -/
theorem bindChannel_spec (probing : Probing) :
    ∃ bound after, bindChannel present probing ioPort controlPort = .ok (bound, after) ∧
      (bound = true ↔ ¬probing.reserved ioPort ∧ ¬probing.reserved controlPort ∧
        controlPort ≠ ioPort) ∧
      ∀ port, after.reserved port ↔ probing.reserved port ∨ port = ioPort ∨
        port = controlPort ∧ ¬probing.reserved ioPort := by
  unfold bindChannel Probing.reserved
  by_cases hio : Io.ioArbitratorTestReserved probing.ports ioPort = true
  · refine ⟨false, probing, ?_, by simp [hio], fun port => ?_⟩
    · rw [Io.ioArbitratorReserve, if_pos hio]
    · constructor
      · exact .inl
      · rintro (hport | rfl | ⟨-, hfree⟩)
        · exact hport
        · exact hio
        · exact absurd hio hfree
  · have hports := fun port => @Io.testReserved_reserve probing.ports ioPort port
    rw [Io.ioArbitratorReserve, if_neg hio] at hports ⊢
    obtain ⟨ports, hset⟩ : ∃ ports, ports = Library.HashChains.push Io.hash probing.ports ioPort :=
      ⟨_, rfl⟩
    rw [← hset] at hports ⊢
    dsimp only
    by_cases hcontrol : Io.ioArbitratorTestReserved ports controlPort = true
    · refine ⟨false, { probing with ports }, ?_, ?_, fun port => ?_⟩
      · rw [Io.ioArbitratorReserve, if_pos hcontrol]
      · have htaken := (hports controlPort).mp hcontrol
        simp only [Bool.false_eq_true, false_iff]
        rintro ⟨-, hfree, hne⟩
        exact htaken.elim hne hfree
      · rw [hports]
        constructor
        · rintro (rfl | hport)
          · exact .inr (.inl rfl)
          · exact .inl hport
        · rintro (hport | rfl | ⟨rfl, -⟩)
          · exact .inr hport
          · exact .inl rfl
          · exact (hports port).mp hcontrol
    · have hfree := fun port => @Io.testReserved_reserve ports controlPort port
      rw [Io.ioArbitratorReserve, if_neg hcontrol] at hfree ⊢
      dsimp only
      obtain ⟨first, hmaster, hfirst⟩ := @addIdeDevice_ports present ioPort controlPort .master
        { probing with ports := Library.HashChains.push Io.hash ports controlPort }
      obtain ⟨second, hslave, hsecond⟩ := @addIdeDevice_ports present ioPort controlPort .slave first
      rw [hports, not_or] at hcontrol
      refine ⟨true, second, ?_, by simp [hio, hcontrol.1, hcontrol.2], fun port => ?_⟩
      · rw [hmaster, ok_bind, hslave, ok_bind, pure_eq_ok]
      · rw [hsecond, hfirst, hfree, hports]
        constructor
        · rintro (rfl | rfl | hport)
          · exact .inr (.inr ⟨rfl, hio⟩)
          · exact .inr (.inl rfl)
          · exact .inl hport
        · rintro (hport | rfl | ⟨rfl, -⟩)
          · exact .inr (.inr hport)
          · exact .inr (.inl rfl)
          · exact .inl rfl

/-- Four ports are free and different: the first two are, and the others as the first two are
reserved. -/
theorem four_free {reserved : Port → Prop} {first second third fourth : Port}
    (hfirst : ¬reserved first) (hsecond : ¬reserved second) (hne : second ≠ first) :
    (¬(reserved third ∨ third = first ∨ third = second ∧ ¬reserved first) ∧
        ¬(reserved fourth ∨ fourth = first ∨ fourth = second ∧ ¬reserved first) ∧ fourth ≠ third) ↔
      [first, second, third, fourth].Nodup ∧
        ∀ port ∈ [first, second, third, fourth], ¬reserved port := by
  simp only [List.nodup_cons, List.mem_cons, List.not_mem_nil, or_false, not_or, List.nodup_nil,
    not_false_eq_true, and_true, forall_eq_or_imp, forall_eq, hfirst, hsecond, true_and]
  constructor
  · rintro ⟨⟨hthird, hthirdFirst, hthirdSecond⟩, ⟨hfourth, hfourthFirst, hfourthSecond⟩, hlast⟩
    exact ⟨⟨⟨Ne.symm hne, Ne.symm hthirdFirst, Ne.symm hfourthFirst⟩,
      ⟨Ne.symm hthirdSecond, Ne.symm hfourthSecond⟩, Ne.symm hlast⟩, hthird, hfourth⟩
  · rintro ⟨⟨⟨-, hfirstThird, hfirstFourth⟩, ⟨hsecondThird, hsecondFourth⟩, hlast⟩, hthird, hfourth⟩
    exact ⟨⟨hthird, Ne.symm hfirstThird, Ne.symm hsecondThird⟩,
      ⟨hfourth, Ne.symm hfirstFourth, Ne.symm hsecondFourth⟩, Ne.symm hlast⟩

/-- A controller is bound if its four ports are free. Otherwise the first of them is reserved then,
and nothing else has changed if it was before. -/
theorem pciProbe_spec (hide : device.isIdeController = true) (probing : Probing) :
    ∃ result after, pciProbe present probing device = .ok (result, after) ∧
      (result = .bind ↔ (controllerPorts device).Nodup ∧
        ∀ port ∈ controllerPorts device, ¬probing.reserved port) ∧
      after.reserved (barPort device 0 ataPioPrimary) ∧
      (probing.reserved (barPort device 0 ataPioPrimary) →
        ∀ port, after.reserved port ↔ probing.reserved port) := by
  obtain ⟨primaryBound, primary, hprimary, hprimaryBound, hprimaryPorts⟩ :=
    @bindChannel_spec present (barPort device 0 ataPioPrimary) (barPort device 1 ataPioPrimaryControl)
      probing
  obtain ⟨secondaryBound, secondary, hsecondary, hsecondaryBound, hsecondaryPorts⟩ :=
    @bindChannel_spec present (barPort device 2 ataPioSecondary)
      (barPort device 3 ataPioSecondaryControl) primary
  unfold pciProbe
  rw [if_pos hide, hprimary, ok_bind]
  cases primaryBound with
  | false =>
      refine ⟨.ignore, primary, rfl, ?_, (hprimaryPorts _).mpr (.inr (.inl rfl)), fun hfirst port => ?_⟩
      · simp only [reduceCtorEq, false_iff, not_and]
        intro hnodup hfree
        refine Bool.false_ne_true (hprimaryBound.mpr ⟨hfree _ (by simp [controllerPorts]),
          hfree _ (by simp [controllerPorts]), ?_⟩)
        simp only [controllerPorts, List.nodup_cons, List.mem_cons, not_or] at hnodup
        exact Ne.symm hnodup.1.1
      · rw [hprimaryPorts]
        constructor
        · rintro (hport | rfl | ⟨-, hfree⟩)
          · exact hport
          · exact hfirst
          · exact absurd hfirst hfree
        · exact .inl
  | true =>
      obtain ⟨hio, hcontrol, hne⟩ := hprimaryBound.mp rfl
      have hall : secondaryBound = true ↔ (controllerPorts device).Nodup ∧
          ∀ port ∈ controllerPorts device, ¬probing.reserved port := by
        rw [hsecondaryBound, hprimaryPorts, hprimaryPorts]
        exact four_free hio hcontrol hne
      have hfirst : secondary.reserved (barPort device 0 ataPioPrimary) :=
        (hsecondaryPorts _).mpr (.inl ((hprimaryPorts _).mpr (.inr (.inl rfl))))
      dsimp only
      rw [if_neg (by decide), hsecondary, ok_bind]
      cases secondaryBound with
      | false => exact ⟨.ignore, secondary, rfl, by rw [← hall]; simp, hfirst, fun h => absurd h hio⟩
      | true => exact ⟨.bind, secondary, rfl, by rw [← hall]; simp, hfirst, fun h => absurd h hio⟩

end Channels

/-- The ports are as before a refused probe if the device is no IDE controller, its first port was
taken, or nothing is refused. -/
theorem refusesCleanly_iff (present : Port → Port → DeviceDrive → Bool) (probing : Probing)
    (device : PciDevice) :
    RefusesCleanly present probing device ↔
      device.isIdeController = false ∨ probing.reserved (barPort device 0 ataPioPrimary) ∨
        (controllerPorts device).Nodup ∧
          ∀ port ∈ controllerPorts device, ¬probing.reserved port := by
  cases hide : device.isIdeController with
  | false =>
      refine iff_of_true ⟨.ignore, probing, ?_, fun _ _ => Iff.rfl⟩ (.inl rfl)
      rw [pciProbe, hide]
      rfl
  | true =>
      obtain ⟨result, after, hprobe, hbind, hfirst, hsame⟩ := @pciProbe_spec present device hide probing
      constructor
      · rintro ⟨result', after', hprobe', hclean⟩
        cases hprobe.symm.trans hprobe'
        cases result with
        | ignore => exact .inr (.inl ((hclean rfl _).mp hfirst))
        | bind => exact .inr (.inr (hbind.mp rfl))
      · rintro (hnot | htaken | hfree)
        · cases hnot
        · exact ⟨result, after, hprobe, fun _ => hsame htaken⟩
        · refine ⟨result, after, hprobe, ?_⟩
          rw [hbind.mpr hfree]
          rintro ⟨⟩

/-- The driver before its first device, when another driver has the port `0x3F6`. -/
def controlTaken : Probing :=
  ⟨(Io.ioArbitratorReserve Io.ioArbitratorInit ataPioPrimaryControl).2, [], Devices.deviceInit⟩

/-- A controller with the standard ports. -/
def standardController : PciDevice := ⟨true, fun _ => 0⟩

/-- The probe reserves `ATA_PIO_PRIMARY` and is refused. -/
theorem not_refusesCleanly : ¬∀ present probing device, RefusesCleanly present probing device := by
  intro hclean
  obtain ⟨result, after, hprobe, hsame⟩ := hclean (fun _ _ _ => false) controlTaken standardController
  obtain ⟨result', after', hprobe', hbind, hfirst, -⟩ :=
    @pciProbe_spec (fun _ _ _ => false) standardController rfl controlTaken
  cases hprobe.symm.trans hprobe'
  cases result with
  | bind =>
      have hfree := (hbind.mp rfl).2 ataPioPrimaryControl (by decide)
      exact hfree (Io.testReserved_reserve.mpr (.inl rfl))
  | ignore =>
      have htaken := (hsame rfl _).mp hfirst
      unfold Probing.reserved controlTaken at htaken
      rw [Io.testReserved_reserve] at htaken
      exact absurd htaken (by decide)

end PKernel.Pio
