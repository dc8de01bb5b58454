import OpTable.Schema.Basic

/-!
# Preset schemas

The schemas of the bundled instruction sets: 32-bit words with three register operands, and the same
with a rounding mode for floating-point instructions.
-/

namespace OpTable.Schema

def qcpu : Schema where
  name := "qcpu"
  wordWidth? := some 32
  opcodeWidth := 4
  funct3Width := 3
  funct7Width := 7
  operandRoles := [⟨"rs1", 6, false⟩, ⟨"rs2", 6, false⟩, ⟨"rd", 6, false⟩]
  fields := [⟨"shamt", 5, false⟩]

/-- The schema of the floating-point instructions: a rounding mode is an operand role too. -/
def qcpuFloat : Schema :=
  { qcpu with name := "qcpu-f", operandRoles := qcpu.operandRoles ++ [⟨"rm", 3, false⟩] }

end OpTable.Schema
