import ShaderGen.Spirv.Module
import ShaderGen.Word

/-!
# Binary form

A module as 32-bit words: a header of five, then each instruction as a first word holding its
length and its operation, the result type, the result and the operands.
-/

namespace ShaderGen

/-- Bytes grouped by four into words, the first byte lowest; the last word is filled with zeros. -/
def packBytes : List Nat → List Nat
  | [] => []
  | [a] => [a]
  | [a, b] => [a + b * 0x100]
  | [a, b, c] => [a + b * 0x100 + c * 0x10000]
  | a :: b :: c :: d :: rest => (a + b * 0x100 + c * 0x10000 + d * 0x1000000) :: packBytes rest

/-- A text as words, ended by a zero byte. -/
def textWords (text : String) : List Nat :=
  packBytes (text.toUTF8.toList.map UInt8.toNat ++ [0])

def Operand.words : Operand → List Nat
  | .ref id => [id]
  | .literal value | .mask value => [value]
  | .wide value => [value % wordCount, value / wordCount]
  | .text value => textWords value
  | .capability value => [value.code]
  | .storage value => [value.code]
  | .decoration value => [value.code]
  | .builtIn value => [value.code]
  | .model value => [value.modelCode]
  | .mode value => [value.code]
  | .dimension value => [value.code]
  | .format value => [value.code]
  | .addressing value => [value.code]
  | .memory value => [value.code]
  | .language value => [value.code]
  | .reduce => [0]

def Instruction.words (i : Instruction) : List Nat :=
  let tail := i.type.toList ++ i.result.toList ++ i.operands.flatMap Operand.words
  ((tail.length + 1) * 0x10000 + i.op.code) :: tail

def Module.words (m : Module) : List Nat :=
  [0x07230203, m.version.word, m.generator, m.bound, 0]
    ++ m.instructions.flatMap Instruction.words

end ShaderGen
