import SkyEye.Arm.Virt
import SkyEye.Mmu.Arm7100
import SkyEye.Mmu.Arm9
import SkyEye.Mmu.Sa

/-!
# The operations of the MMU models

The tables `sa_mmu_ops`, `arm7100_mmu_ops`, `arm920t_mmu_ops` and `arm926ejs_mmu_ops`, as
far as loads and stores use them. A read may leave the datum of its caller as it was
(`old`), which `armvirt.c` does not initialise.
-/

namespace SkyEye

def Sa.ops (old : ARMword) : MmuOps Sa where
  read cpu mmu := Sa.read cpu mmu old
  write := Sa.write

def Arm7100.ops : MmuOps Arm7100 where
  read := Arm7100.read
  write := Arm7100.write

def Arm920t.ops (old : ARMword) : MmuOps Arm920t where
  read cpu mmu := Arm920t.read cpu mmu old
  write := Arm920t.write

def Arm926ejs.ops (old : ARMword) : MmuOps Arm926ejs where
  read cpu mmu := Arm926ejs.read cpu mmu old
  write := Arm926ejs.write

/-- An ARM920T after reset. -/
def Arm920t.boot : State Arm920t :=
  { State.bootState (Arm920t.init .cleared).u with mmu := Arm920t.init .cleared }

/-- An ARM920T with a first-level descriptor for the first megabyte, of a client domain, and
with a control register. -/
def Arm920t.oneSection (desc control : ARMword) : MmuState Arm920t :=
  let ram := { Ram.cleared with word := fun i => if i = 0x1000 then desc else 0 }
  let mmu := Arm920t.mcr (Arm920t.init ram) true 2 0 0 0x4000
  Arm920t.mcr (Arm920t.mcr mmu true 3 0 0 1) true 1 0 0 control

/-- An ARM920T with its MMU on and page tables that map nothing. -/
def Arm920t.unmapped : State Arm920t :=
  { Arm920t.boot with mmu := Arm920t.mcr (Arm920t.init .cleared) true 1 0 0 1 }

end SkyEye
