/-
PCI enumeration (`hw/pci.rs`). A device without the multi-function bit is still asked
for function 1: the mask of its functions is taken for the last of them.
-/
import CoreOS.Machine
import Mathlib.Data.List.Basic
import Mathlib.Data.Prod.Lex
import Mathlib.Tactic.IntervalCases

namespace CoreOS

/-- What answers in configuration space: the bytes of each function of each device. -/
abbrev PciConfig := BitVec 8 → BitVec 5 → BitVec 3 → BitVec 8 → BitVec 8

/-- `config_address`. -/
def configAddress (bus device function offset : BitVec 8) : BitVec 32 :=
  (1#32 <<< 31) ||| (bus.setWidth 32 <<< 16) ||| ((device &&& 0x1F#8).setWidth 32 <<< 11) |||
    ((function &&& 0x07#8).setWidth 32 <<< 8) ||| (offset &&& 0xFC#8).setWidth 32

def dwordOf (b3 b2 b1 b0 : BitVec 8) : BitVec 32 :=
  b3.setWidth 32 <<< 24 ||| b2.setWidth 32 <<< 16 ||| b1.setWidth 32 <<< 8 ||| b0.setWidth 32

def wordOf (b1 b0 : BitVec 8) : BitVec 16 := b1.setWidth 16 <<< 8 ||| b0.setWidth 16

namespace PciConfig

variable (cfg : PciConfig)

/-- What the data port reads with an address in the address port: four bytes, the
lowest first. -/
def readPort (address : BitVec 32) : BitVec 32 :=
  let byte (lane : BitVec 2) : BitVec 8 :=
    cfg (address.extractLsb' 16 8) (address.extractLsb' 11 5) (address.extractLsb' 8 3)
      (address.extractLsb' 2 6 ++ lane)
  dwordOf (byte 3) (byte 2) (byte 1) (byte 0)

/-- `pci_read_dword`. -/
def readDword (bus device func offset : BitVec 8) : BitVec 32 := cfg.readPort (configAddress bus device func offset)

/-- `pci_read_word`. -/
def readWord (bus device func offset : BitVec 8) : BitVec 16 :=
  ((cfg.readDword bus device func (offset &&& 0xFC#8) >>> ((offset &&& 2#8) * 8#8).toNat) &&& 0xFFFF#32).setWidth 16

/-- `pci_read_byte`. -/
def readByte (bus device func offset : BitVec 8) : BitVec 8 :=
  ((cfg.readDword bus device func (offset &&& 0xFC#8) >>> ((offset &&& 3#8) * 8#8).toNat) &&& 0xFF#32).setWidth 8

end PciConfig

structure PciDeviceInfo where
  bus : BitVec 8
  device : BitVec 8
  function : BitVec 8
  vendorId : BitVec 16
  deviceId : BitVec 16
  classCode : BitVec 8
  subclass : BitVec 8
  progIf : BitVec 8
  revision : BitVec 8
  headerType : BitVec 8
  deriving DecidableEq

/-- `PciDeviceInfo::from_address`. -/
def PciDeviceInfo.fromAddress (cfg : PciConfig) (bus device func : BitVec 8) : Option PciDeviceInfo :=
  if cfg.readWord bus device func 0x00 = 0xFFFF then none
  else
    some {
      bus
      device
      function := func
      vendorId := cfg.readWord bus device func 0x00
      deviceId := cfg.readWord bus device func 0x02
      classCode := cfg.readByte bus device func 0x0B
      subclass := cfg.readByte bus device func 0x0A
      progIf := cfg.readByte bus device func 0x09
      revision := cfg.readByte bus device func 0x08
      headerType := cfg.readByte bus device func 0x0E &&& 0x7F }

/-- The last function that is asked for. -/
def funcMask (cfg : PciConfig) (bus device : BitVec 8) : Nat :=
  if cfg.readByte bus device 0 0x0E &&& 0x80 ≠ 0 then 0x07 else 0x01

/-- `PCI_DEVICES` and `PCI_SCANNED`. -/
structure PciState where
  devices : List PciDeviceInfo
  scanned : Bool

def PciState.new : PciState := ⟨[], false⟩

/-- The three loops of `enumerate_pci`. -/
def scanPci (cfg : PciConfig) : List PciDeviceInfo :=
  (List.range 256).flatMap fun bus =>
    (List.range 32).flatMap fun device =>
      (List.range (funcMask cfg (.ofNat 8 bus) (.ofNat 8 device) + 1)).filterMap fun func =>
        PciDeviceInfo.fromAddress cfg (.ofNat 8 bus) (.ofNat 8 device) (.ofNat 8 func)

/-- `enumerate_pci`. -/
def enumeratePci (cfg : PciConfig) (s : PciState) : PciState :=
  if s.scanned then s else ⟨scanPci cfg, true⟩

/-! ## What is read -/

section Decode

variable (bus device func offset : BitVec 8)

theorem configAddress_bus : (configAddress bus device func offset).extractLsb' 16 8 = bus := by
  ext i hi
  interval_cases i <;> simp [configAddress, BitVec.getLsbD_eq_getElem]

theorem configAddress_device : (configAddress bus device func offset).extractLsb' 11 5 = device.setWidth 5 := by
  ext i hi
  interval_cases i <;> simp [configAddress, BitVec.getLsbD_eq_getElem]

theorem configAddress_func : (configAddress bus device func offset).extractLsb' 8 3 = func.setWidth 3 := by
  ext i hi
  interval_cases i <;> simp [configAddress, BitVec.getLsbD_eq_getElem]

theorem configAddress_offset :
    (configAddress bus device func offset).extractLsb' 2 6 = offset.extractLsb' 2 6 := by
  ext i hi
  interval_cases i <;> simp [configAddress, BitVec.getLsbD_eq_getElem]

end Decode

section Lanes

variable (b3 b2 b1 b0 : BitVec 8)

theorem byteLanes :
    (dwordOf b3 b2 b1 b0 >>> 0 &&& 0xFF#32).setWidth 8 = b0 ∧
      (dwordOf b3 b2 b1 b0 >>> 8 &&& 0xFF#32).setWidth 8 = b1 ∧
      (dwordOf b3 b2 b1 b0 >>> 16 &&& 0xFF#32).setWidth 8 = b2 ∧
      (dwordOf b3 b2 b1 b0 >>> 24 &&& 0xFF#32).setWidth 8 = b3 := by
  refine ⟨?_, ?_, ?_, ?_⟩ <;> ext i hi <;> interval_cases i <;> simp [dwordOf]

theorem wordLanes :
    (dwordOf b3 b2 b1 b0 >>> 0 &&& 0xFFFF#32).setWidth 16 = wordOf b1 b0 ∧
      (dwordOf b3 b2 b1 b0 >>> 16 &&& 0xFFFF#32).setWidth 16 = wordOf b3 b2 := by
  refine ⟨?_, ?_⟩ <;> ext i hi <;> interval_cases i <;> simp [dwordOf, wordOf]

end Lanes

namespace PciConfig

variable (cfg : PciConfig) (bus device func : BitVec 8)

/-- The bytes of a function. -/
def byteAt (offset : BitVec 8) : BitVec 8 := cfg bus (device.setWidth 5) (func.setWidth 3) offset

theorem readByte_at : cfg.readByte bus device func 0x0B = cfg.byteAt bus device func 0x0B ∧
    cfg.readByte bus device func 0x0A = cfg.byteAt bus device func 0x0A ∧
    cfg.readByte bus device func 0x09 = cfg.byteAt bus device func 0x09 ∧
    cfg.readByte bus device func 0x08 = cfg.byteAt bus device func 0x08 ∧
    cfg.readByte bus device func 0x0E = cfg.byteAt bus device func 0x0E := by
  simp only [readByte, readDword, readPort, configAddress_bus, configAddress_device, configAddress_func,
    configAddress_offset]
  exact ⟨(byteLanes ..).2.2.2, (byteLanes ..).2.2.1, (byteLanes ..).2.1, (byteLanes ..).1, (byteLanes ..).2.2.1⟩

theorem readWord_at :
    cfg.readWord bus device func 0x00 = wordOf (cfg.byteAt bus device func 0x01) (cfg.byteAt bus device func 0x00) ∧
      cfg.readWord bus device func 0x02 = wordOf (cfg.byteAt bus device func 0x03) (cfg.byteAt bus device func 0x02) := by
  simp only [readWord, readDword, readPort, configAddress_bus, configAddress_device, configAddress_func,
    configAddress_offset]
  exact ⟨(wordLanes ..).1, (wordLanes ..).2⟩

/-- The function is there. -/
def Present : Prop := wordOf (cfg.byteAt bus device func 0x01) (cfg.byteAt bus device func 0x00) ≠ 0xFFFF

/-- Function 0 says that there are others. -/
def MultiFunction : Prop := cfg.byteAt bus device 0 0x0E &&& 0x80#8 ≠ 0

/-- What there is to be listed of a function. -/
def info : PciDeviceInfo where
  bus
  device
  function := func
  vendorId := wordOf (cfg.byteAt bus device func 0x01) (cfg.byteAt bus device func 0x00)
  deviceId := wordOf (cfg.byteAt bus device func 0x03) (cfg.byteAt bus device func 0x02)
  classCode := cfg.byteAt bus device func 0x0B
  subclass := cfg.byteAt bus device func 0x0A
  progIf := cfg.byteAt bus device func 0x09
  revision := cfg.byteAt bus device func 0x08
  headerType := cfg.byteAt bus device func 0x0E &&& 0x7F

instance : Decidable (cfg.Present bus device func) := inferInstanceAs (Decidable (_ ≠ _))

instance : Decidable (cfg.MultiFunction bus device) := inferInstanceAs (Decidable (_ ≠ _))

theorem fromAddress_eq : PciDeviceInfo.fromAddress cfg bus device func =
    if cfg.Present bus device func then some (cfg.info bus device func) else none := by
  obtain ⟨h1, h2, h3, h4, h5⟩ := cfg.readByte_at bus device func
  obtain ⟨hv, hd⟩ := cfg.readWord_at bus device func
  simp only [PciDeviceInfo.fromAddress, hv, hd, h1, h2, h3, h4, h5]
  by_cases hp : cfg.Present bus device func
  · rw [if_pos hp, if_neg hp]
    rfl
  · rw [if_neg hp, if_pos (not_not.mp hp)]

theorem funcMask_eq : funcMask cfg bus device = if cfg.MultiFunction bus device then 7 else 1 := by
  rw [funcMask, (cfg.readByte_at bus device 0).2.2.2.2]
  rfl

end PciConfig

/-! ## The list -/

/-- Where a function is found, as numbers. -/
def PciDeviceInfo.address (d : PciDeviceInfo) : Nat ×ₗ Nat ×ₗ Nat :=
  toLex (d.bus.toNat, toLex (d.device.toNat, d.function.toNat))

/-- The functions that are to be listed. -/
def PciConfig.Lists (cfg : PciConfig) (bus device func : Nat) : Prop :=
  bus < 256 ∧ device < 32 ∧ func < 8 ∧ cfg.Present (.ofNat 8 bus) (.ofNat 8 device) (.ofNat 8 func) ∧
    (func = 0 ∨ cfg.MultiFunction (.ofNat 8 bus) (.ofNat 8 device))

/-- The list has each function once, in order, as it describes itself. -/
structure ListsEachOnce (cfg : PciConfig) (devices : List PciDeviceInfo) : Prop where
  exact : ∀ bus device func, toLex (bus, toLex (device, func)) ∈ devices.map PciDeviceInfo.address ↔
    cfg.Lists bus device func
  sorted : (devices.map PciDeviceInfo.address).Pairwise (· < ·)
  fields : ∀ d ∈ devices, d = cfg.info d.bus d.device d.function

section Scan

variable {cfg : PciConfig}

/-- The functions of a device that are found. -/
def PciConfig.found (cfg : PciConfig) (bus device : Nat) : List Nat :=
  (List.range (if cfg.MultiFunction (.ofNat 8 bus) (.ofNat 8 device) then 8 else 2)).filter fun func =>
    cfg.Present (.ofNat 8 bus) (.ofNat 8 device) (.ofNat 8 func)

theorem scanPci_eq : scanPci cfg =
    (List.range 256).flatMap fun bus => (List.range 32).flatMap fun device =>
      (cfg.found bus device).map fun func => cfg.info (.ofNat 8 bus) (.ofNat 8 device) (.ofNat 8 func) := by
  have hone : ∀ bus device : Nat, (List.range (funcMask cfg (.ofNat 8 bus) (.ofNat 8 device) + 1)).filterMap
      (fun func => PciDeviceInfo.fromAddress cfg (.ofNat 8 bus) (.ofNat 8 device) (.ofNat 8 func)) =
      (cfg.found bus device).map fun func => cfg.info (.ofNat 8 bus) (.ofNat 8 device) (.ofNat 8 func) := by
    intro bus device
    have hmask : funcMask cfg (.ofNat 8 bus) (.ofNat 8 device) + 1 =
        if cfg.MultiFunction (.ofNat 8 bus) (.ofNat 8 device) then 8 else 2 := by
      rw [PciConfig.funcMask_eq]
      split <;> rfl
    rw [hmask, PciConfig.found, ← List.filterMap_eq_map, List.filterMap_filter]
    refine List.filterMap_congr fun func _ => ?_
    rw [PciConfig.fromAddress_eq]
    simp
  simp only [scanPci, hone]

theorem mem_found {bus device func : Nat} : func ∈ cfg.found bus device ↔
    (func < 8 ∧ (func < 2 ∨ cfg.MultiFunction (.ofNat 8 bus) (.ofNat 8 device))) ∧
      cfg.Present (.ofNat 8 bus) (.ofNat 8 device) (.ofNat 8 func) := by
  rw [PciConfig.found, List.mem_filter, List.mem_range, decide_eq_true_eq]
  split
  · simp [*]
  · simp only [*, or_false]
    exact ⟨fun h => ⟨⟨by omega, h.1⟩, h.2⟩, fun h => ⟨h.1.2, h.2⟩⟩

theorem address_info {bus device func : Nat} (hb : bus < 256) (hd : device < 32) (hf : func < 8) :
    (cfg.info (.ofNat 8 bus) (.ofNat 8 device) (.ofNat 8 func)).address = toLex (bus, toLex (device, func)) := by
  simp only [PciDeviceInfo.address, PciConfig.info, BitVec.toNat_ofNat]
  rw [Nat.mod_eq_of_lt hb, Nat.mod_eq_of_lt (by omega), Nat.mod_eq_of_lt (by omega)]

theorem addresses_eq : (scanPci cfg).map PciDeviceInfo.address =
    (List.range 256).flatMap fun bus => (List.range 32).flatMap fun device =>
      (cfg.found bus device).map fun func => toLex (bus, toLex (device, func)) := by
  rw [scanPci_eq, List.map_flatMap]
  refine List.flatMap_congr fun bus hb => ?_
  rw [List.map_flatMap]
  refine List.flatMap_congr fun device hd => ?_
  rw [List.map_map]
  refine List.map_congr_left fun func hf => ?_
  exact address_info (List.mem_range.mp hb) (List.mem_range.mp hd) (mem_found.mp hf).1.1

theorem mem_addresses {bus device func : Nat} :
    toLex (bus, toLex (device, func)) ∈ (scanPci cfg).map PciDeviceInfo.address ↔
      bus < 256 ∧ device < 32 ∧ func ∈ cfg.found bus device := by
  rw [addresses_eq]
  simp only [List.mem_flatMap, List.mem_range, List.mem_map, EmbeddingLike.apply_eq_iff_eq, Prod.mk.injEq]
  constructor
  · rintro ⟨b, hb, d, hd, f, hf, rfl, rfl, rfl⟩
    exact ⟨hb, hd, hf⟩
  · rintro ⟨hb, hd, hf⟩
    exact ⟨bus, hb, device, hd, func, hf, rfl, rfl, rfl⟩

theorem scanPci_sorted : ((scanPci cfg).map PciDeviceInfo.address).Pairwise (· < ·) := by
  rw [addresses_eq, List.pairwise_flatMap]
  refine ⟨fun bus _ => ?_, List.pairwise_lt_range.imp fun hlt x hx y hy => ?_⟩
  · rw [List.pairwise_flatMap]
    refine ⟨fun device _ => ?_, List.pairwise_lt_range.imp fun hlt x hx y hy => ?_⟩
    · rw [List.pairwise_map]
      refine (List.pairwise_lt_range.filter _).imp fun hlt => ?_
      exact Prod.Lex.toLex_lt_toLex.mpr (.inr ⟨rfl, Prod.Lex.toLex_lt_toLex.mpr (.inr ⟨rfl, hlt⟩)⟩)
    · obtain ⟨f, -, rfl⟩ := List.mem_map.mp hx
      obtain ⟨g, -, rfl⟩ := List.mem_map.mp hy
      exact Prod.Lex.toLex_lt_toLex.mpr (.inr ⟨rfl, Prod.Lex.toLex_lt_toLex.mpr (.inl hlt)⟩)
  · obtain ⟨d, -, hx⟩ := List.mem_flatMap.mp hx
    obtain ⟨f, -, rfl⟩ := List.mem_map.mp hx
    obtain ⟨e, -, hy⟩ := List.mem_flatMap.mp hy
    obtain ⟨g, -, rfl⟩ := List.mem_map.mp hy
    exact Prod.Lex.toLex_lt_toLex.mpr (.inl hlt)

theorem scanPci_fields : ∀ d ∈ scanPci cfg, d = cfg.info d.bus d.device d.function := by
  intro d hd
  rw [scanPci_eq] at hd
  obtain ⟨bus, -, hd⟩ := List.mem_flatMap.mp hd
  obtain ⟨device, -, hd⟩ := List.mem_flatMap.mp hd
  obtain ⟨func, -, rfl⟩ := List.mem_map.mp hd
  rfl

end Scan

/-- A device that does not say that it has more functions answers as function 1. -/
def PciConfig.Ghost (cfg : PciConfig) : Prop :=
  ∃ bus < 256, ∃ device < 32, ¬ cfg.MultiFunction (.ofNat 8 bus) (.ofNat 8 device) ∧
    cfg.Present (.ofNat 8 bus) (.ofNat 8 device) 1

/-- **PCI enumeration.** For every configuration space: the first `enumerate_pci` lists
each function once, in order and with its own fields, and the second changes nothing,
exactly if no device without the multi-function bit answers as function 1. -/
theorem enumerate_pci_exact_iff (cfg cfg' : PciConfig) :
    (ListsEachOnce cfg (enumeratePci cfg .new).devices ∧
      enumeratePci cfg' (enumeratePci cfg .new) = enumeratePci cfg .new) ↔ ¬ cfg.Ghost := by
  have hexact : (∀ bus device func, toLex (bus, toLex (device, func)) ∈ (scanPci cfg).map PciDeviceInfo.address ↔
      cfg.Lists bus device func) ↔ ¬ cfg.Ghost := by
    simp only [mem_addresses, mem_found, PciConfig.Lists]
    constructor
    · rintro h ⟨bus, hb, device, hd, hsingle, hpres⟩
      obtain ⟨-, -, -, -, hor⟩ := (h bus device 1).mp ⟨hb, hd, ⟨by omega, .inl (by omega)⟩, hpres⟩
      exact hor.elim (by omega) hsingle
    · intro hno bus device func
      constructor
      · rintro ⟨hb, hd, ⟨hf, hor⟩, hpres⟩
        refine ⟨hb, hd, hf, hpres, ?_⟩
        by_cases hz : func = 0
        · exact .inl hz
        · refine .inr (by_contra fun hsingle => ?_)
          obtain rfl : func = 1 := by
            have := hor.resolve_right hsingle
            omega
          exact hno ⟨bus, hb, device, hd, hsingle, hpres⟩
      · rintro ⟨hb, hd, hf, hpres, hor⟩
        exact ⟨hb, hd, ⟨hf, hor.imp (by omega) id⟩, hpres⟩
  have hfirst : enumeratePci cfg .new = ⟨scanPci cfg, true⟩ := if_neg (by decide)
  have hagain : enumeratePci cfg' ⟨scanPci cfg, true⟩ = ⟨scanPci cfg, true⟩ := if_pos rfl
  rw [← hexact, hfirst, hagain]
  exact ⟨fun h => h.1.exact, fun h => ⟨⟨h, scanPci_sorted, scanPci_fields⟩, rfl⟩⟩

/-- One device that answers alike for all functions is listed twice. -/
theorem single_function_listed_twice :
    ∃ cfg : PciConfig, (∀ bus device func offset, cfg bus device func offset = cfg bus device 0 offset) ∧
      toLex (0, toLex (0, 1)) ∈ (enumeratePci cfg .new).devices.map PciDeviceInfo.address ∧
      ¬ ListsEachOnce cfg (enumeratePci cfg .new).devices := by
  have hmem : toLex (0, toLex (0, 1)) ∈ (scanPci fun _ _ _ _ => 0).map PciDeviceInfo.address :=
    mem_addresses.mpr ⟨by decide, by decide, mem_found.mpr ⟨⟨by decide, .inl (by decide)⟩, by decide⟩⟩
  have hfirst : enumeratePci (fun _ _ _ _ => 0) .new = ⟨scanPci fun _ _ _ _ => 0, true⟩ := if_neg (by decide)
  refine ⟨fun _ _ _ _ => 0, fun _ _ _ _ => rfl, ?_⟩
  rw [hfirst]
  refine ⟨hmem, fun h => ?_⟩
  obtain ⟨-, -, -, -, hor⟩ := (h.exact 0 0 1).mp hmem
  exact hor.elim (by decide) (by decide)

end CoreOS
