import SkyEye.Arm.Init
import SkyEye.Mmu.Tlb

/-!
# The virtual memory interface

`armvirt.c`: loads and stores of the processor over the operations of an MMU model.
A fault is recorded in the fault registers and raises the abort signals; every other
access lowers `abortSig`. The S and N variants differ in the cycles they count.
-/

namespace SkyEye

/-- The data accesses of `mmu_ops_t`, for all sizes. -/
structure MmuOps (U : Type) where
  read : Cpu → MmuState U → ARMword → DataType → Except Fault ARMword × MmuState U
  write : Cpu → MmuState U → ARMword → DataType → ARMword → Option Fault × MmuState U

namespace State

variable {U : Type} (s : State U)

def cpu : Cpu := ⟨s.mode, s.bigendSig, s.isXScale⟩

def abortWord : ARMword := if s.tFlag then 0xefffdfff else 0xefffffff

/-- A data access faults: the fault registers and `ARMul_DATAABORT`. -/
def dataAbort (mmu : MmuState U) (f : Fault) (address : ARMword) : State U :=
  { s with
    mmu := { mmu with
      faultStatus := (f.code ||| mmu.lastDomain <<< 4) &&& 0xFF, faultAddress := address }
    abortSig := true
    aborted := DATAABORTV }

/-- A data access succeeds: `ARMul_CLEARABORT`. -/
def accessed (mmu : MmuState U) : State U := { s with mmu := mmu, abortSig := false }

def icycles : State U := { s with abortSig := false }

end State

namespace MmuOps

variable {U : Type} (ops : MmuOps U) (s : State U)

def readData (datatype : DataType) (address : ARMword) : ARMword × State U :=
  match ops.read s.cpu s.mmu address datatype with
  | (.error f, mmu) => (s.abortWord, s.dataAbort mmu f address)
  | (.ok data, mmu) => (data, s.accessed mmu)

def writeData (datatype : DataType) (address data : ARMword) : State U :=
  match ops.write s.cpu s.mmu address datatype data with
  | (some f, mmu) => s.dataAbort mmu f address
  | (none, mmu) => s.accessed mmu

/-- `ARMul_LoadWordN` and `ARMul_LoadWordS` -/
def loadWordN (address : ARMword) : ARMword × State U := ops.readData s .word address
def loadWordS (address : ARMword) : ARMword × State U := ops.readData s .word address

/-- `ARMul_LoadHalfWord` and `ARMul_LoadByte` -/
def loadHalfWord (address : ARMword) : ARMword × State U := ops.readData s .halfword address
def loadByte (address : ARMword) : ARMword × State U := ops.readData s .byte address

/-- `ARMul_StoreWordN` and `ARMul_StoreWordS` -/
def storeWordN (address data : ARMword) : State U := ops.writeData s .word address data
def storeWordS (address data : ARMword) : State U := ops.writeData s .word address data

/-- `ARMul_StoreHalfWord` and `ARMul_StoreByte` -/
def storeHalfWord (address data : ARMword) : State U := ops.writeData s .halfword address data
def storeByte (address data : ARMword) : State U := ops.writeData s .byte address data

variable {ops s} {datatype : DataType} {address data : ARMword} {mmu : MmuState U}

theorem readData_ok (h : ops.read s.cpu s.mmu address datatype = (.ok data, mmu)) :
    ops.readData s datatype address = (data, s.accessed mmu) := by
  unfold readData
  rw [h]

theorem readData_error {f : Fault}
    (h : ops.read s.cpu s.mmu address datatype = (.error f, mmu)) :
    ops.readData s datatype address = (s.abortWord, s.dataAbort mmu f address) := by
  unfold readData
  rw [h]

theorem writeData_ok (h : ops.write s.cpu s.mmu address datatype data = (none, mmu)) :
    ops.writeData s datatype address data = s.accessed mmu := by
  unfold writeData
  rw [h]

theorem writeData_error {f : Fault}
    (h : ops.write s.cpu s.mmu address datatype data = (some f, mmu)) :
    ops.writeData s datatype address data = s.dataAbort mmu f address := by
  unfold writeData
  rw [h]

end MmuOps

end SkyEye
