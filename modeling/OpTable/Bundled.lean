import OpTable.Schema.Presets

/-!
# Bundled specifications

The instruction sets that come with the library: integer instructions, floating-point instructions,
and both together.
-/

namespace OpTable

inductive Bundled where
  | base
  | float
  | all
deriving DecidableEq

structure Source where
  /-- The name of the source, for diagnostics. -/
  origin : String
  text : String
deriving DecidableEq

namespace Bundled

def text : Bundled → String
  | base => "base"
  | float => "float"
  | all => "all"

def named? (name : String) : Option Bundled :=
  if name = "base" then some base
  else if name = "float" then some float
  else if name = "all" then some all
  else none

/-- The schema that the specifications of a choice are written for. -/
def schema : Bundled → Schema
  | base => Schema.qcpu
  | float => Schema.qcpuFloat
  | all => Schema.qcpuFloat

def baseLines : List String :=
  [
    "# qcpu 基础整数指令",
    "#",
    "# 每行：mnemonic field... opcode，高位在前",
    "# 指令字：funct7[31:25] rs2[24:19] rs1[18:13] funct3[12:10] rd[9:4] opcode[3:0]",
    "",
    "# R 型",
    "add   0000000 rs2 rs1 000 rd 0000",
    "sub   0100000 rs2 rs1 000 rd 0000",
    "sll   0000000 rs2 rs1 001 rd 0000",
    "slt   0000000 rs2 rs1 010 rd 0000",
    "sltu  0000000 rs2 rs1 011 rd 0000",
    "xor   0000000 rs2 rs1 100 rd 0000",
    "srl   0000000 rs2 rs1 101 rd 0000",
    "sra   0100000 rs2 rs1 101 rd 0000",
    "or    0000000 rs2 rs1 110 rd 0000",
    "and   0000000 rs2 rs1 111 rd 0000",
    "",
    "# I 型",
    "addi  \x7b1'b0,imm[11:0]\x7d rs1 000 rd 0001",
    "slti  \x7b1'b0,imm[11:0]\x7d rs1 010 rd 0001",
    "sltiu \x7b1'b0,imm[11:0]\x7d rs1 011 rd 0001",
    "xori  \x7b1'b0,imm[11:0]\x7d rs1 100 rd 0001",
    "ori   \x7b1'b0,imm[11:0]\x7d rs1 110 rd 0001",
    "andi  \x7b1'b0,imm[11:0]\x7d rs1 111 rd 0001",
    "slli  0000000 \x7b1'b0,shamt\x7d rs1 001 rd 0001",
    "srli  0000000 \x7b1'b0,shamt\x7d rs1 101 rd 0001",
    "srai  0100000 \x7b1'b0,shamt\x7d rs1 101 rd 0001",
    "",
    "# 访存",
    "lw    \x7b1'b0,imm[11:0]\x7d rs1 010 rd 0010",
    "sw    \x7b1'b0,imm[11:6]\x7d rs2 rs1 010 imm[5:0] 0011",
    "",
    "# 分支",
    "beq   imm[12:6] rs2 rs1 000 \x7bimm[5:1],1'b0\x7d 0100",
    "bne   imm[12:6] rs2 rs1 001 \x7bimm[5:1],1'b0\x7d 0100",
    "blt   imm[12:6] rs2 rs1 100 \x7bimm[5:1],1'b0\x7d 0100",
    "bge   imm[12:6] rs2 rs1 101 \x7bimm[5:1],1'b0\x7d 0100",
    "bltu  imm[12:6] rs2 rs1 110 \x7bimm[5:1],1'b0\x7d 0100",
    "bgeu  imm[12:6] rs2 rs1 111 \x7bimm[5:1],1'b0\x7d 0100",
    "",
    "# 跳转",
    "jalr  \x7b1'b0,imm[11:0]\x7d rs1 000 rd 0101",
    "jal   \x7b1'b0,imm[20:1],1'b0\x7d rd 0110",
    "",
    "# U 型：高 20 位立即数，补两个零位凑满 32 位",
    "auipc \x7b2'b00,imm[31:12]\x7d rd 0111",
    "lui   \x7b2'b00,imm[31:12]\x7d rd 1000"]

def floatLines : List String :=
  [
    "# qcpu 单精度浮点指令（需要 qcpu-f schema，rm 为舍入模式）",
    "",
    "fadd   0000000 rs2 rs1 rm rd 1011",
    "fsub   0000100 rs2 rs1 rm rd 1011",
    "fmul   0001000 rs2 rs1 rm rd 1011",
    "fdiv   0001100 rs2 rs1 rm rd 1011",
    "fsqrt  0101100 000000 rs1 rm rd 1011",
    "fsgnj  0010000 rs2 rs1 000 rd 1011",
    "fsgnjn 0010000 rs2 rs1 001 rd 1011",
    "fsgnjx 0010000 rs2 rs1 010 rd 1011",
    "fcvtws 1100000 000000 rs1 rm rd 1011",
    "feq    1010000 rs2 rs1 010 rd 1011",
    "flt    1010000 rs2 rs1 001 rd 1011",
    "fle    1010000 rs2 rs1 000 rd 1011",
    "fcvtsw 1101000 000000 rs1 rm rd 1011"]

def joinLines (lines : List String) : String := String.join (lines.map (· ++ "\n"))

def baseSource : Source := ⟨"<builtin:base>", joinLines baseLines⟩

def floatSource : Source := ⟨"<builtin:float>", joinLines floatLines⟩

/-- The sources of a choice, in the order in which they are compiled. -/
def sources : Bundled → List Source
  | base => [baseSource]
  | float => [floatSource]
  | all => [baseSource, floatSource]

end Bundled

end OpTable
