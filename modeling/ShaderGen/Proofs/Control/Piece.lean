import ShaderGen.Proofs.Scope.Ledger

/-!
# Pieces of control flow

The blocks of a function come from nested constructs, though the builder sees them only as one block
after the other. A `Piece` is that nesting: straight code, code that ends a block, selections, loops
and switches, with the labels that each of them has asked for. `Piece.emit` writes the blocks of a
piece behind a `Draft`, the blocks so far of which the last one still takes instructions. Whatever
code generation does inside of a function, it writes some piece (`Emits`, in the module after this
one), so that what holds of all functions can be shown by recursion over pieces.
-/

namespace ShaderGen

open List

/-! ## Instructions that end blocks -/

namespace Instruction

/-- Goes to a block. -/
def goto (target : Ident) : Instruction := { op := .branch, operands := [.ref target] }

/-- Goes to one of two blocks. -/
def fork (condition thenBlock elseBlock : Ident) : Instruction :=
  { op := .branchConditional, operands := [.ref condition, .ref thenBlock, .ref elseBlock] }

/-- Goes to one of several blocks. -/
def choice (selector : Ident) (targets : List Operand) : Instruction :=
  { op := .switch, operands := .ref selector :: targets }

/-- Names the block where a selection ends. -/
def selecting (merge : Ident) (control : Nat) : Instruction :=
  { op := .selectionMerge, operands := [.ref merge, .mask control] }

/-- Names the blocks where a loop ends and where its next round begins. -/
def looping (merge next : Ident) (advice : List Operand) : Instruction :=
  { op := .loopMerge, operands := .ref merge :: .ref next :: advice }

/-- Ends a block that cannot be reached. -/
def nowhere : Instruction := { op := .unreachable }

end Instruction

/-- An instruction that joins values from two blocks. -/
def phiInstruction (type a leaveA b leaveB id : Ident) : Instruction :=
  { op := .phi, type := some type, result := some id
    operands := Operand.refs [a, leaveA, b, leaveB] }

/-- Ends a function or an invocation, so that the block it stands in leads nowhere. -/
def Opcode.isFinal : Opcode → Bool
  | .ret | .returnValue | .kill | .terminateInvocation | .ignoreIntersectionKHR | .terminateRayKHR
  | .emitMeshTasksEXT => true
  | _ => false

/-- The end of a block that goes on with `target` if it can be reached. -/
def onward (live : Bool) (target : Ident) : List Instruction :=
  if live then [.goto target] else [.nowhere]

/-! ## Blocks so far -/

/-- Blocks that are complete, and the labels of blocks that count as unreachable. -/
structure Written where
  blocks : List Block
  dead : List Ident

/-- Blocks that are complete, and one that takes instructions. -/
structure Draft extends Written where
  label : Ident
  body : List Instruction
  /-- Whether the block that takes instructions counts as reachable. -/
  live : Bool

/-- The next block begins. -/
def Written.begin (w : Written) (label : Ident) (live : Bool) : Draft :=
  { blocks := w.blocks, dead := if live then w.dead else w.dead ++ [label]
    label, body := [], live }

namespace Draft

/-- The last block goes on. -/
def push (d : Draft) (code : List Instruction) : Draft := { d with body := d.body ++ code }

/-- The last block ends. -/
def close (d : Draft) (ending : List Instruction) : Written :=
  { blocks := d.blocks ++ [{ label := d.label, body := d.body ++ ending }], dead := d.dead }

theorem close_push (d : Draft) (code ending : List Instruction) :
    (d.push code).close ending = d.close (code ++ ending) := by
  simp [push, close]

/-- All blocks. -/
def all (d : Draft) : List Block := d.blocks ++ [{ label := d.label, body := d.body }]

/-- The last block ends, and another one begins. -/
def move (d : Draft) (ending : List Instruction) (label : Ident) (live : Bool) : Draft :=
  (d.close ending).begin label live

end Draft

/-! ## Pieces -/

/-- The labels of a loop: its header, the start of its body, the start of the part between two
rounds, and the block after it. -/
structure LoopLabels where
  header : Ident
  body : Ident
  next : Ident
  merge : Ident

/-- The value of a logical operator, and the value of its right operand. -/
structure Verdict where
  type : Ident
  id : Ident
  value : Ident

mutual

/-- The control flow of a piece of code. -/
inductive Piece
  /-- Code that stays in its block. -/
  | plain (code : List Instruction)
  | seq (first second : Piece)
  /-- Ends the function or the invocation. What follows gets a block of its own. -/
  | stop (last : Instruction) (follow : Ident)
  /-- Leaves a construct around it. What follows gets a block of its own. -/
  | jump (target follow : Ident)
  | ifThen (condition : Ident) (control : Nat) (thenBlock merge : Ident) (body : Piece)
  /-- A selection with two sides, after which control counts as reachable if it was before
  (`always`), or if it is at the end of one side. -/
  | ifElse (condition : Ident) (control : Nat) (thenBlock elseBlock merge : Ident) (always : Bool)
    (first second : Piece)
  /-- A logical operator with its right operand. -/
  | logical (left : Ident) (isAnd : Bool) (right merge : Ident) (operand : Piece)
    (verdict : Verdict)
  | switch (selector : Ident) (control : Nat) (targets : List Operand) (merge : Ident) (arms : Arms)
  /-- A loop without a test in front, with the condition for another round if it has one. -/
  | loop (labels : LoopLabels) (advice : List Operand) (body rest : Piece) (again : Option Ident)
  /-- A loop with a test in front. -/
  | whileLoop (labels : LoopLabels) (advice : List Operand) (testBlock : Ident) (test : Piece)
    (condition : Ident) (body rest : Piece)

/-- The blocks that a switch leads to. Each one goes on with the next one. -/
inductive Arms
  | nil
  | cons (label : Ident) (body : Piece) (rest : Arms)

end

/-- Where control goes in front of the arms. -/
def Arms.start (merge : Ident) : Arms → Ident
  | .nil => merge
  | .cons label _ _ => label

/-- The labels that a switch can lead to. -/
def Arms.heads : Arms → List Ident
  | .nil => []
  | .cons label _ rest => label :: rest.heads

/-- The end of a round of a loop. -/
def LoopLabels.back (l : LoopLabels) : Option Ident → List Instruction
  | none => [.goto l.header]
  | some c => [.fork c l.header l.merge]

/-- The targets of a logical operator: the right operand is only evaluated if it matters. -/
def logicalFork (left : Ident) (isAnd : Bool) (right merge : Ident) : Instruction :=
  if isAnd then .fork left right merge else .fork left merge right

mutual

/-- Writes the blocks of a piece. -/
def Piece.emit : Piece → Draft → Draft
  | .plain code, d => d.push code
  | .seq first second, d => second.emit (first.emit d)
  | .stop last follow, d => d.move [last] follow false
  | .jump target follow, d => d.move (onward d.live target) follow false
  | .ifThen c control thenBlock merge body, d =>
    let e := body.emit (d.move [.selecting merge control, .fork c thenBlock merge] thenBlock d.live)
    e.move (onward e.live merge) merge d.live
  | .ifElse c control thenBlock elseBlock merge always first second, d =>
    let e := first.emit
      (d.move [.selecting merge control, .fork c thenBlock elseBlock] thenBlock d.live)
    let f := second.emit (e.move (onward e.live merge) elseBlock d.live)
    f.move (onward f.live merge) merge (if always then d.live else e.live || f.live)
  | .logical left isAnd right merge operand verdict, d =>
    let e := operand.emit
      (d.move [.selecting merge 0, logicalFork left isAnd right merge] right true)
    (e.move [.goto merge] merge true).push
      [phiInstruction verdict.type left d.label verdict.value e.label verdict.id]
  | .switch selector control targets merge arms, d =>
    (arms.emit merge d.live (d.close [.selecting merge control, .choice selector targets])).begin
      merge d.live
  | .loop l advice body rest again, d =>
    let header := d.move (onward d.live l.header) l.header d.live
    let e := body.emit (header.move [.looping l.merge l.next advice, .goto l.body] l.body d.live)
    let f := rest.emit (e.move (onward e.live l.next) l.next d.live)
    f.move (l.back again) l.merge d.live
  | .whileLoop l advice testBlock test condition body rest, d =>
    let header := d.move (onward d.live l.header) l.header d.live
    let t := test.emit (header.move [.looping l.merge l.next advice, .goto testBlock]
      testBlock d.live)
    let e := body.emit (t.move [.fork condition l.body l.merge] l.body d.live)
    let f := rest.emit (e.move (onward e.live l.next) l.next d.live)
    f.move (l.back none) l.merge d.live

/-- Writes the blocks of the arms of a switch. -/
def Arms.emit (merge : Ident) (live : Bool) : Arms → Written → Written
  | .nil, w => w
  | .cons label body rest, w =>
    let e := body.emit (w.begin label live)
    rest.emit merge live (e.close (onward e.live (rest.start merge)))

end

mutual

/-- The labels of a piece, in the order in which their blocks are begun. -/
def Piece.labels : Piece → List Ident
  | .plain _ => []
  | .seq first second => first.labels ++ second.labels
  | .stop _ follow | .jump _ follow => [follow]
  | .ifThen _ _ thenBlock merge body => thenBlock :: (body.labels ++ [merge])
  | .ifElse _ _ thenBlock elseBlock merge _ first second =>
    thenBlock :: (first.labels ++ elseBlock :: (second.labels ++ [merge]))
  | .logical _ _ right merge operand _ => right :: (operand.labels ++ [merge])
  | .switch _ _ _ merge arms => arms.labels ++ [merge]
  | .loop l _ body rest _ =>
    l.header :: l.body :: (body.labels ++ l.next :: (rest.labels ++ [l.merge]))
  | .whileLoop l _ testBlock test _ body rest =>
    l.header :: testBlock :: (test.labels ++ l.body ::
      (body.labels ++ l.next :: (rest.labels ++ [l.merge])))

/-- The labels of the arms of a switch, in the order in which their blocks are begun. -/
def Arms.labels : Arms → List Ident
  | .nil => []
  | .cons label body rest => label :: (body.labels ++ rest.labels)

end

mutual

/-- A piece that names no labels but its own and those that it may leave for. -/
def Piece.Valid : List Ident → Piece → Prop
  | _, .plain code => ∀ i ∈ code, i.op.isControl = false
  | exits, .seq first second => first.Valid exits ∧ second.Valid exits
  | _, .stop last _ => last.op.isFinal
  | exits, .jump target _ => target ∈ exits
  | exits, .ifThen _ _ _ _ body => body.Valid exits
  | exits, .ifElse _ _ _ _ _ _ first second => first.Valid exits ∧ second.Valid exits
  | exits, .logical _ _ _ _ operand _ => operand.Valid exits
  | exits, .switch _ _ targets merge arms =>
    (∀ t ∈ Operand.ids targets, t = merge ∨ t ∈ arms.heads) ∧ arms.Valid (merge :: exits)
  | exits, .loop l advice body rest _ =>
    Operand.ids advice = [] ∧ body.Valid (l.merge :: l.next :: exits) ∧ rest.Valid exits
  | exits, .whileLoop l advice _ test _ body rest =>
    Operand.ids advice = [] ∧ test.Valid exits ∧ body.Valid (l.merge :: l.next :: exits) ∧
      rest.Valid exits

def Arms.Valid : List Ident → Arms → Prop
  | _, .nil => True
  | exits, .cons _ body rest => body.Valid exits ∧ rest.Valid exits

end

/-! ## How drafts go on -/

/-- How blocks end. -/
inductive Ending : List Instruction → Prop
  | final {i : Instruction} (h : i.op.isFinal) : Ending [i]
  | nowhere : Ending [.nowhere]
  | goto (t : Ident) : Ending [.goto t]
  | test (c x y : Ident) : Ending [.fork c x y]
  | select (m : Ident) (k : Nat) (c x y : Ident) : Ending [.selecting m k, .fork c x y]
  | switch (m : Ident) (k : Nat) (s : Ident) (targets : List Operand) :
    Ending [.selecting m k, .choice s targets]
  | loop (m n : Ident) (advice : List Operand) (t : Ident) (h : Operand.ids advice = []) :
    Ending [.looping m n advice, .goto t]

theorem ending_onward (live : Bool) (target : Ident) : Ending (onward live target) := by
  cases live
  · exact .nowhere
  · exact .goto target

theorem LoopLabels.ending_back (l : LoopLabels) (again : Option Ident) : Ending (l.back again) := by
  cases again
  · exact .goto _
  · exact .test _ _ _

theorem ending_logical (m : Ident) (k : Nat) (left : Ident) (isAnd : Bool) (right merge : Ident) :
    Ending [.selecting m k, logicalFork left isAnd right merge] := by
  cases isAnd
  · exact .select m k left merge right
  · exact .select m k left right merge

/-- A draft goes on: in its last block, with other blocks, whose labels are given, and with logical
operators. It keeps to the rules if the pieces that are written are known to be valid. -/
inductive Draft.Extends (valid : Prop) : Draft → List Ident → Draft → Prop
  | refl (d : Draft) : Extends valid d [] d
  | push {d e : Draft} {labels : List Ident} {code : List Instruction}
      (h : Extends valid d labels e)
    (plain : valid → ∀ i ∈ code, i.op ≠ .phi) : Extends valid d labels (e.push code)
  | move {d e : Draft} {labels : List Ident} {ending : List Instruction}
      (h : Extends valid d labels e)
    (ends : valid → Ending ending) (label : Ident) (live : Bool) :
    Extends valid d (labels ++ [label]) (e.move ending label live)
  | join {d e g : Draft} {left right merge : Ident} {isAnd : Bool} {labels inner : List Ident}
    (h : Extends valid d labels e) (operand : Extends valid
      (e.move [.selecting merge 0, logicalFork left isAnd right merge] right true) inner g)
    (v : Verdict) : Extends valid d (labels ++ right :: (inner ++ [merge]))
      ((g.move [.goto merge] merge true).push
        [phiInstruction v.type left e.label v.value g.label v.id])

theorem Draft.labels_push (d : Draft) (code : List Instruction) :
    (d.push code).all.map Block.label = d.all.map Block.label := by
  simp [all, push]

theorem Draft.labels_move (d : Draft) (ending : List Instruction) (label : Ident) (live : Bool) :
    (d.move ending label live).all.map Block.label = d.all.map Block.label ++ [label] := by
  simp [all, move, close, Written.begin]

namespace Draft.Extends

variable {valid : Prop} {d e : Draft} {labels labels' : List Ident}

theorem cast (h : d.Extends valid labels e) (same : labels = labels') : d.Extends valid labels' e :=
  same ▸ h

/-- The labels of the blocks are those from before and the new ones. -/
theorem labels_eq (h : d.Extends valid labels e) :
    e.all.map Block.label = d.all.map Block.label ++ labels := by
  induction h with
  | refl => simp
  | push _ _ ih => rw [labels_push, ih]
  | move _ _ _ _ ih => rw [labels_move, ih, append_assoc]
  | join _ _ _ ih ih' => simp [labels_push, labels_move, ih', ih]

end Draft.Extends

mutual

theorem Piece.extends_emit {valid : Prop} : (piece : Piece) → ∀ {exits : List Ident} {d e : Draft}
    {labels : List Ident}, (valid → piece.Valid exits) → d.Extends valid labels e →
    d.Extends valid (labels ++ piece.labels) (piece.emit e)
  | .plain _, _, _, _, _, ok, h => .cast (h.push fun hv i hi isPhi => by
      have control := ok hv i hi
      rw [isPhi] at control
      cases control) (append_nil _).symm
  | .seq first second, _, _, _, _, ok, h =>
    .cast (second.extends_emit (fun hv => (ok hv).2) (first.extends_emit (fun hv => (ok hv).1) h))
      (append_assoc _ _ _)
  | .stop _ _, _, _, _, _, ok, h => h.move (fun hv => .final (ok hv)) _ _
  | .jump _ _, _, _, _, _, _, h => h.move (fun _ => ending_onward _ _) _ _
  | .ifThen _ _ _ _ body, _, _, _, _, ok, h =>
    .cast ((body.extends_emit ok (h.move (fun _ => .select _ _ _ _ _) _ _)).move
      (fun _ => ending_onward _ _) _ _) (by simp [Piece.labels])
  | .ifElse _ _ _ _ _ _ first second, _, _, _, _, ok, h =>
    .cast ((second.extends_emit (fun hv => (ok hv).2) ((first.extends_emit (fun hv => (ok hv).1)
      (h.move (fun _ => .select _ _ _ _ _) _ _)).move (fun _ => ending_onward _ _) _ _)).move
        (fun _ => ending_onward _ _) _ _) (by simp [Piece.labels])
  | .logical _ _ _ _ operand verdict, _, _, _, _, ok, h =>
    h.join (operand.extends_emit ok (.refl _)) verdict
  | .switch _ _ _ _ arms, _, _, _, _, ok, h =>
    .cast (arms.extends_emit (fun hv => (ok hv).2) (h.move fun _ => .switch _ _ _ _) _ _)
      (append_assoc _ _ _)
  | .loop l _ body rest again, _, _, _, _, ok, h =>
    .cast ((rest.extends_emit (fun hv => (ok hv).2.2) ((body.extends_emit (fun hv => (ok hv).2.1)
      ((h.move (fun _ => ending_onward _ _) _ _).move (fun hv => .loop _ _ _ _ (ok hv).1) _ _)).move
        (fun _ => ending_onward _ _) _ _)).move (fun _ => l.ending_back again) _ _)
      (by simp [Piece.labels])
  | .whileLoop l _ _ test _ body rest, _, _, _, _, ok, h =>
    .cast ((rest.extends_emit (fun hv => (ok hv).2.2.2)
    ((body.extends_emit (fun hv => (ok hv).2.2.1)
      ((test.extends_emit (fun hv => (ok hv).2.1) ((h.move (fun _ => ending_onward _ _) _ _).move
        (fun hv => .loop _ _ _ _ (ok hv).1) _ _)).move (fun _ => .test _ _ _) _ _)).move
          (fun _ => ending_onward _ _) _ _)).move (fun _ => l.ending_back none) _ _)
      (by simp [Piece.labels])

theorem Arms.extends_emit {valid : Prop} : (arms : Arms) → ∀ {exits : List Ident} {merge : Ident}
    {live : Bool} {d : Draft} {w : Written} {labels : List Ident}, (valid → arms.Valid exits) →
    (∀ label live, d.Extends valid (labels ++ [label]) (w.begin label live)) →
    ∀ label live', d.Extends valid (labels ++ arms.labels ++ [label])
      ((arms.emit merge live w).begin label live')
  | .nil, _, _, _, _, _, _, _, h, _, _ => .cast (h _ _) (by simp [Arms.labels])
  | .cons _ body rest, _, _, _, _, _, _, ok, h, _, _ =>
    .cast (rest.extends_emit (fun hv => (ok hv).2) ((body.extends_emit (fun hv => (ok hv).1)
      (h _ _)).move (fun _ => ending_onward _ _)) _ _) (by simp [Arms.labels])

end

variable (piece : Piece)

/-- The draft that a piece makes of another one, whether or not the piece is valid. -/
theorem Piece.extends (d : Draft) : d.Extends False piece.labels (piece.emit d) :=
  @piece.extends_emit False [] d d [] False.elim (.refl d)

theorem Piece.labels_emit (d : Draft) :
    (piece.emit d).all.map Block.label = d.all.map Block.label ++ piece.labels :=
  (piece.extends d).labels_eq

theorem Piece.length_emit (d : Draft) :
    (piece.emit d).blocks.length = d.blocks.length + piece.labels.length := by
  have labels := congrArg length (piece.labels_emit d)
  simp only [Draft.all, map_append, map_cons, map_nil, length_append, length_map, length_cons,
    length_nil] at labels
  omega

end ShaderGen
