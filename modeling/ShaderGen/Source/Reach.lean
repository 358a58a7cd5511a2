import ShaderGen.Source.Program

/-!
# Functions and symbols in use

`Program.reachable` lists the functions that the entry function and the initializers of module-scope
variables can come to call, the entry function first, each one where it is first met.
`Program.referenced` lists the symbols that given functions and the initializers name.
-/

namespace ShaderGen

mutual

/-- The functions that a node calls, in order of evaluation: the calls inside the arguments come
before the call itself. -/
def Node.calls : Node → List FunctionId
  | .symbol .. | .constant .. => []
  | .binary _ _ left right => left.calls ++ right.calls
  | .unary _ _ operand => operand.calls
  | .swizzle _ base _ => base.calls
  | .sequence _ nodes | .construct _ nodes | .intrinsic _ _ nodes => allCalls nodes
  | .call _ function arguments => allCalls arguments ++ [function]
  | .select _ condition thenBranch elseBranch _ _ =>
    condition.calls ++ optionalCalls thenBranch ++ optionalCalls elseBranch
  | .switch _ selector body _ => selector.calls ++ allCalls body
  | .loop _ test body terminal _ _ =>
    optionalCalls test ++ optionalCalls body ++ optionalCalls terminal
  | .jump _ _ value | .declare _ _ value => optionalCalls value
termination_by structural n => n

def allCalls : List Node → List FunctionId
  | [] => []
  | n :: rest => n.calls ++ allCalls rest
termination_by structural ns => ns

def optionalCalls : Option Node → List FunctionId
  | none => []
  | some n => n.calls
termination_by structural n => n

end

mutual

/-- The symbols that a node reads, writes or declares. -/
def Node.symbols : Node → List SymbolId
  | .symbol _ id => [id]
  | .constant .. => []
  | .binary _ _ left right => left.symbols ++ right.symbols
  | .unary _ _ operand => operand.symbols
  | .swizzle _ base _ => base.symbols
  | .sequence _ nodes | .construct _ nodes | .intrinsic _ _ nodes | .call _ _ nodes =>
    allSymbols nodes
  | .select _ condition thenBranch elseBranch _ _ =>
    condition.symbols ++ optionalSymbols thenBranch ++ optionalSymbols elseBranch
  | .switch _ selector body _ => selector.symbols ++ allSymbols body
  | .loop _ test body terminal _ _ =>
    optionalSymbols test ++ optionalSymbols body ++ optionalSymbols terminal
  | .jump _ _ value => optionalSymbols value
  | .declare _ id init => id :: optionalSymbols init
termination_by structural n => n

def allSymbols : List Node → List SymbolId
  | [] => []
  | n :: rest => n.symbols ++ allSymbols rest
termination_by structural ns => ns

def optionalSymbols : Option Node → List SymbolId
  | none => []
  | some n => n.symbols
termination_by structural n => n

end

/-- A list with one more member at the end, unless it is there already. -/
def insertNew (found : List Nat) (a : Nat) : List Nat :=
  if found.contains a then found else found ++ [a]

namespace Program

/-- The functions that the body of a function calls; none when there is no such function. -/
def callees (p : Program) (f : FunctionId) : List FunctionId :=
  ((p.function? f).map fun d => allCalls d.body).getD []

/-- Adds a function and everything it can come to call, depth first. A chain of functions that are
all new is never longer than the number of functions, which bounds `fuel`. -/
def explore (p : Program) : Nat → List FunctionId → FunctionId → List FunctionId
  | 0, found, f => insertNew found f
  | fuel + 1, found, f =>
    if found.contains f then found
    else (p.callees f).foldl (p.explore fuel) (found ++ [f])

def reachable (p : Program) : List FunctionId :=
  (allCalls p.initializers ++ p.callees p.entry).foldl (p.explore p.functions.length) [p.entry]

/-- The symbols that the initializers and the given functions name, each where it is first met. -/
def referenced (p : Program) (functions : List FunctionId) : List SymbolId :=
  let bodies := functions.flatMap fun f => ((p.function? f).map FunctionDecl.body).getD []
  (allSymbols p.initializers ++ allSymbols bodies).foldl insertNew []

end Program

end ShaderGen
