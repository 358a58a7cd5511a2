import ShaderGen.Spirv.Module

/-!
# Listings

The readable form of a module: one line for each instruction, `%id = OpName %type operands`. Ids
are written with a percent sign, literals and masks in decimal, literals of two words with an `L`
after them, enumerants by name and texts in double quotes.
-/

namespace ShaderGen

/-- A character inside double quotes. Quotes, backslashes and control characters are escaped. -/
def quotedChar (c : Char) : List Char :=
  if c == '"' then ['\\', '"']
  else if c == '\\' then ['\\', '\\']
  else if c == '\n' then ['\\', 'n']
  else if c == '\r' then ['\\', 'r']
  else if c == '\t' then ['\\', 't']
  else if c.toNat == 8 then ['\\', 'b']
  else if c.toNat == 12 then ['\\', 'f']
  else if c.toNat < 32 then
    ['\\', 'u', '0', '0', Nat.digitChar (c.toNat / 16), Nat.digitChar (c.toNat % 16)]
  else [c]

def quoted (text : String) : String :=
  String.ofList ('"' :: text.toList.flatMap quotedChar ++ ['"'])

def Operand.render : Operand → String
  | .ref id => s!"%{id}"
  | .literal value | .mask value => toString value
  | .wide value => s!"{value}L"
  | .text value => quoted value
  | .capability value => Named.name value
  | .storage value => Named.name value
  | .decoration value => Named.name value
  | .builtIn value => Named.name value
  | .model value => value.model
  | .mode value => Named.name value
  | .dimension value => Named.name value
  | .format value => Named.name value
  | .addressing value => Named.name value
  | .memory value => Named.name value
  | .language value => value.printed
  | .reduce => "Reduce"

def Instruction.render (i : Instruction) : String :=
  let head := match i.result with
    | some id => s!"%{id} = Op{Named.name i.op}"
    | none => s!"Op{Named.name i.op}"
  let parts := i.type.toList.map (Operand.render ∘ .ref) ++ i.operands.map Operand.render
  parts.foldl (fun line part => line ++ " " ++ part) head

def Module.listing (m : Module) : List String :=
  m.instructions.map Instruction.render

end ShaderGen
