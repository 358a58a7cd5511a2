/-!
# Closed vocabularies

Stages, operators, opcodes, capabilities and the like are finite sets of values that texts refer
to by name. `Named` lists such a set in full and gives each value its name; `Named.ofName?` reads
a name back.
-/

namespace ShaderGen

/-- A finite set of values, each with a name of its own. -/
class Named (α : Type) where
  /-- Every value, in order. -/
  all : List α
  name : α → String

/-- The text of a layout that breaks no line. -/
def plainText : Std.Format → String
  | .text s => s
  | .append f g => plainText f ++ plainText g
  | .nest _ f | .group f _ | .tag _ f => plainText f
  | _ => ""

/-- The name of the constructor that a value is made of, with a capital letter in front. -/
def constructorName {α : Type} [Repr α] (a : α) : String :=
  let last := ((plainText (repr a)).toList.reverse.takeWhile (· ≠ '.')).reverse
  (String.ofList last).capitalize

/-- The value that a text names, if any. -/
def Named.ofName? {α : Type} [Named α] (text : String) : Option α :=
  Named.all.find? fun a => Named.name a == text

end ShaderGen
