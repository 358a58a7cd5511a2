import ShaderGen.Source.Program

/-!
# Well-typed nodes

Constructors that give a node the type it has by its parts: a variable the type of its symbol, a
call the result type of its function, a selection the type of the part selected.
-/

namespace ShaderGen

namespace ShaderType

/-- The type of one step of indexing: an array element, a column or a component. -/
def indexed (t : ShaderType) : ShaderType :=
  if t.isArray then t.elementType
  else if t.isMatrix then t.columnType
  else t.scalarType

end ShaderType

namespace Program

def var (p : Program) (id : SymbolId) : Node :=
  .symbol ⟨((p.symbol? id).map Symbol.type).getD .void, {}⟩ id

def call (p : Program) (f : FunctionId) (arguments : List Node) : Node :=
  .call ⟨((p.function? f).map FunctionDecl.returnType).getD .void, {}⟩ f arguments

/-- The structure that a member selection on a value of the type looks into. References are looked
through. -/
def memberOwner? (p : Program) (t : ShaderType) : Option StructDecl :=
  match t.basic with
  | .struct id | .block id | .reference id => p.struct? id
  | _ => none

end Program

namespace Node

def literal (value : ConstantValue) (type : ShaderType) : Node :=
  .constant ⟨type.withStorage .constant, {}⟩ value

def int (value : Int) : Node := literal (.int value) (.int 32)

def uint (value : Nat) : Node := literal (.uint value) (.uint 32)

/-- A floating-point constant, by its 64-bit pattern. -/
def float (bits : Nat) : Node := literal (.float bits) (.float 32)

def bool (value : Bool) : Node := literal (.bool value) .bool

def binaryOf (op : BinaryOp) (left right : Node) (type : ShaderType) : Node :=
  .binary ⟨type, {}⟩ op left right

/-- `left = right`, or a compound assignment. -/
def assignment (op : BinaryOp) (left right : Node) : Node :=
  binaryOf op left right left.type

def index (base i : Node) : Node :=
  binaryOf .index base i base.type.indexed

def indexConstant (base : Node) (i : Nat) : Node :=
  binaryOf .indexConstant base (int i) base.type.indexed

def unaryOf (op : UnaryOp) (operand : Node) (type : ShaderType) : Node :=
  .unary ⟨type, {}⟩ op operand

def swizzled (base : Node) (components : List Nat) : Node :=
  .swizzle ⟨base.type.scalarType.vector components.length, {}⟩ base components

def constructed (type : ShaderType) (arguments : List Node) : Node :=
  .construct ⟨type, {}⟩ arguments

def intrinsicOf (op : Intrinsic) (arguments : List Node) (type : ShaderType) : Node :=
  .intrinsic ⟨type, {}⟩ op arguments

def sequenceOf (nodes : List Node) : Node :=
  .sequence ⟨.void, {}⟩ nodes

def ifThen (condition thenBranch : Node) (elseBranch : Option Node) : Node :=
  .select ⟨.void, {}⟩ condition (some thenBranch) elseBranch false {}

/-- A conditional expression, with the type of its first alternative. -/
def conditional (condition thenValue elseValue : Node) : Node :=
  .select ⟨thenValue.type, {}⟩ condition (some thenValue) (some elseValue) false {}

def loopOf (test body terminal : Option Node) (testFirst : Bool) (advice : LoopAdvice) : Node :=
  .loop ⟨.void, {}⟩ test body terminal testFirst advice

def switchOf (selector : Node) (body : List Node) (advice : SelectionAdvice) : Node :=
  .switch ⟨.void, {}⟩ selector body advice

def jumpOf (kind : Jump) (value : Option Node) : Node :=
  .jump ⟨.void, {}⟩ kind value

def declaration (symbol : SymbolId) (init : Option Node) : Node :=
  .declare ⟨.void, {}⟩ symbol init

end Node

/-- The selection of a member by its position in the source structure. -/
def Program.member (p : Program) (base : Node) (i : Nat) : Node :=
  let type := ((p.memberOwner? base.type).bind fun s => s.members[i]?).map StructMember.type
  Node.binaryOf .member base (Node.int i) (type.getD .void)

end ShaderGen
