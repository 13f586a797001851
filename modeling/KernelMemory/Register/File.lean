import KernelMemory.Register.RootBase

/-!
# Registers

The control registers and the model-specific registers of a processor, kept in memory.  A register
that was never written reads as zero.  Every write to the root base register is recorded, so that
switches of the address space can be told afterwards.
-/

namespace KernelMemory

/-- The control registers in use. -/
inductive ControlRegister where
  | cr0
  /-- The address of the latest page fault. -/
  | cr2
  /-- The root base register. -/
  | cr3
  | cr4
  deriving DecidableEq, Repr

namespace ControlRegister

/-- Position in the order of registers. -/
def rank : ControlRegister → Nat
  | cr0 => 0
  | cr2 => 2
  | cr3 => 3
  | cr4 => 4

/-- The name of the register. -/
def label : ControlRegister → String
  | cr0 => "Cr0"
  | cr2 => "Cr2"
  | cr3 => "Cr3"
  | cr4 => "Cr4"

/-- The register with the given name. -/
def ofLabel? (text : String) : Option ControlRegister :=
  [cr0, cr2, cr3, cr4].find? fun register => register.label == text

end ControlRegister

/-- The index of the register that enables the extended features. -/
def extendedFeatures : Nat := 0xc0000080

/-- The index of the page attribute table. -/
def pageAttributes : Nat := 0x277

/-- Values by number, in ascending order. -/
abbrev RegisterBank := List (Nat × Nat)

namespace RegisterBank

/-- The value of a register; zero if it was never written. -/
def read (bank : RegisterBank) (register : Nat) : Nat :=
  (bank.lookup register).getD 0

/-- Write a register. -/
def write (register value : Nat) : RegisterBank → RegisterBank
  | [] => [(register, value)]
  | (r, v) :: rest =>
    if register < r then (register, value) :: (r, v) :: rest
    else if register = r then (register, value) :: rest
    else (r, v) :: write register value rest

end RegisterBank

/-- The registers of a processor. -/
structure RegisterFile where
  /-- The control registers written so far, by rank. -/
  control : RegisterBank
  /-- The model-specific registers written so far, by index. -/
  specific : RegisterBank
  /-- All values written to the root base register, the oldest first. -/
  rootBaseWrites : List Nat
  deriving DecidableEq, Repr

namespace RegisterFile

/-- No register was written yet. -/
def new : RegisterFile :=
  ⟨[], [], []⟩

/-- Put a value into a control register without recording it. -/
def preset (f : RegisterFile) (register : ControlRegister) (value : Nat) : RegisterFile :=
  { f with control := RegisterBank.write register.rank value f.control }

/-- The value of a control register. -/
def readControl (f : RegisterFile) (register : ControlRegister) : Nat :=
  RegisterBank.read f.control register.rank

/-- Write a control register. -/
def writeControl (f : RegisterFile) (register : ControlRegister) (value : Nat) : RegisterFile :=
  let f := f.preset register value
  if register = .cr3 then { f with rootBaseWrites := f.rootBaseWrites ++ [value] } else f

/-- The value of a model-specific register. -/
def readSpecific (f : RegisterFile) (index : Nat) : Nat :=
  RegisterBank.read f.specific index

/-- Write a model-specific register. -/
def writeSpecific (f : RegisterFile) (index value : Nat) : RegisterFile :=
  { f with specific := RegisterBank.write index value f.specific }

/-- The root base register. -/
def rootBase (f : RegisterFile) : RootBase :=
  ⟨BitVec.ofNat 64 (f.readControl .cr3)⟩

/-- Write the root base register. -/
def writeRootBase (f : RegisterFile) (value : RootBase) : RegisterFile :=
  f.writeControl .cr3 value.bits.toNat

/-- A bank shown as a map, its keys written by `key`. -/
def showBank (key : Nat → String) (bank : RegisterBank) : String :=
  "\x7b" ++ ", ".intercalate (bank.map fun (r, v) => key r ++ ": " ++ toString v) ++ "\x7d"

/-- A value behind a cell, shown as a record. -/
def showCell (text : String) : String :=
  Text.record "RefCell" [("value", text)]

/-- The registers shown as a record. -/
def debug (f : RegisterFile) : String :=
  Text.record "MockRegisters"
    [("control", showCell (showBank (fun r => "Cr" ++ toString r) f.control)),
      ("msrs", showCell (showBank (fun r => "Msr(" ++ toString r ++ ")") f.specific)),
      ("cr3_writes",
        showCell ("[" ++ ", ".intercalate (f.rootBaseWrites.map toString) ++ "]"))]

end RegisterFile

end KernelMemory
