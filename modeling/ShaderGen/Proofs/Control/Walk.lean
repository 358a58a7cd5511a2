import ShaderGen.Proofs.Control.Constructs
import ShaderGen.Proofs.Control.Course
import ShaderGen.Proofs.Control.Outline

/-!
# Walks through blocks

A walk goes from block to block as the instructions at their ends say, with the same decisions that
`Flow.run` goes by, and records the instructions on its way. `Flow.Draws` relates a flow to the
piece that has been written for it, where every leaf knows the instructions that stand for it. Then
a walk through the blocks of the piece goes through the leaves in the order in which they are
executed (`Flow.simulates`, in the module after this one).
-/

namespace ShaderGen

open Draft

variable {i : Instruction} {code' : List Instruction}

/-! ## Walks -/

/-- What a walk comes by. -/
inductive Step
  | did (i : Instruction)
  /-- A condition or a selector has decided where to go. -/
  | asked (id : Ident)
  /-- The instruction has ended the function or the invocation. -/
  | ended (i : Instruction)

/-- How far a walk has come. -/
structure Trail where
  steps : List Step
  /-- Whether there is nowhere left to go. -/
  ended : Bool

namespace Trail

def after (before : List Step) (t : Trail) : Trail := { t with steps := before ++ t.steps }

@[simp] theorem after_after (first second : List Step) (t : Trail) :
    (t.after second).after first = t.after (first ++ second) := by
  simp [after]

end Trail

/-- What control does up to the end of a block. -/
structure Turn where
  steps : List Step
  used : Nat
  /-- The block where it goes then. -/
  target : Option Ident

/-- The target of a switch for a value of its selector. -/
def caseTarget (word : Nat) : List Operand → Option Ident
  | value :: .ref t :: rest =>
    if value = .literal word ∨ value = .wide word then some t else caseTarget word rest
  | _ => none

/-- Goes to the end of a block, whose instructions from here on are given. -/
def turn (choose : Nat → Nat) (used : Nat) : List Instruction → Turn
  | [] => ⟨[], used, none⟩
  | i :: rest =>
    match i.op, i.operands with
    | .branch, [.ref t] => ⟨[], used, some t⟩
    | .branchConditional, [.ref c, .ref t, .ref e] =>
      ⟨[.asked c], used + 1, some (if choose used = 0 then e else t)⟩
    | .switch, .ref s :: .ref default :: cases =>
      ⟨[.asked s], used + 1, some ((caseTarget (choose used) cases).getD default)⟩
    | op, _ =>
      if op.isMerge then turn choose used rest
      else if op.isTerminator then ⟨[.ended i], used, none⟩
      else
        let later := turn choose used rest
        ⟨.did i :: later.steps, later.used, later.target⟩

/-- The instructions of the block with the given label. -/
def codeAt (blocks : List Block) (label : Ident) : List Instruction :=
  ((blocks.find? fun b => b.label == label).map Block.body).getD []

/-- Walks on from inside of a block. Each step to another block takes one unit of fuel. -/
def walk (blocks : List Block) (choose : Nat → Nat) : (fuel used : Nat) → List Instruction → Trail
  | 0, used, code => ⟨(turn choose used code).steps, (turn choose used code).target.isNone⟩
  | fuel + 1, used, code =>
    match (turn choose used code).target with
    | none => ⟨(turn choose used code).steps, true⟩
    | some t =>
      (walk blocks choose fuel (turn choose used code).used (codeAt blocks t)).after
        (turn choose used code).steps

/-- Walks from the first block of the code, which comes after the block of variables. -/
def Function.walk (f : Function) (choose : Nat → Nat) (fuel : Nat) : Trail :=
  ShaderGen.walk f.blocks choose fuel 0 ((f.blocks[1]?.map Block.body).getD [])

section Walk

variable {blocks : List Block} {choose : Nat → Nat} {code : List Instruction}

theorem turn_straight (h : i.op.isFlow = false) (used : Nat) (rest : List Instruction) :
    turn choose used (i :: rest) = ⟨.did i :: (turn choose used rest).steps,
      (turn choose used rest).used, (turn choose used rest).target⟩ := by
  have merge : i.op.isMerge = false := by simp_all [Opcode.isFlow]
  have terminator : i.op.isTerminator = false := by simp_all [Opcode.isFlow]
  rw [turn]
  split <;> simp_all [Opcode.isTerminator]

theorem turn_merge (h : i.op.isMerge) (used : Nat) (rest : List Instruction) :
    turn choose used (i :: rest) = turn choose used rest := by
  rw [turn]
  split <;> simp_all [Opcode.isMerge]

theorem turn_final (h : i.op.isFinal) (used : Nat) (rest : List Instruction) :
    turn choose used (i :: rest) = ⟨[.ended i], used, none⟩ := by
  have terminator := Opcode.isTerminator_of_isFinal h
  have merge : i.op.isMerge = false := by
    cases op : i.op <;> simp_all [Opcode.isMerge, Opcode.isFinal]
  rw [turn]
  split <;> simp_all [Opcode.isFinal]

/-- Where the rest of a block is the same but for some steps, so is the walk. -/
theorem walk_of_turn {used used' : Nat} {before : List Step}
    (steps : (turn choose used code).steps = before ++ (turn choose used' code').steps)
    (same : (turn choose used code).used = (turn choose used' code').used)
    (target : (turn choose used code).target = (turn choose used' code').target) (fuel : Nat) :
    walk blocks choose fuel used code = (walk blocks choose fuel used' code').after before := by
  cases fuel with
  | zero => rw [walk, walk, steps, target, Trail.after]
  | succ fuel =>
    rw [walk, walk, steps, same, target]
    split
    · rfl
    · rw [Trail.after_after]

theorem walk_straight (h : ∀ i ∈ code, i.op.isFlow = false)
    (fuel used : Nat) (rest : List Instruction) : walk blocks choose fuel used (code ++ rest) =
      (walk blocks choose fuel used rest).after (code.map .did) := by
  induction code with
  | nil => rfl
  | cons i code ih =>
    have first : turn choose used (i :: (code ++ rest)) = _ :=
      turn_straight (h i List.mem_cons_self) used (code ++ rest)
    have shorter : walk blocks choose fuel used (i :: (code ++ rest)) =
        (walk blocks choose fuel used (code ++ rest)).after [.did i] := by
      apply walk_of_turn <;> rw [first]
      rfl
    rw [List.cons_append, shorter, ih fun j hj => h j (List.mem_cons_of_mem i hj),
      Trail.after_after]
    rfl

theorem walk_merge (h : i.op.isMerge) (fuel used : Nat) (rest : List Instruction) :
    walk blocks choose fuel used (i :: rest) = walk blocks choose fuel used rest := by
  have same : turn choose used (i :: rest) = turn choose used rest := turn_merge h used rest
  have steps : (turn choose used (i :: rest)).steps = [] ++ (turn choose used rest).steps :=
    congrArg Turn.steps same
  exact walk_of_turn steps (congrArg Turn.used same) (congrArg Turn.target same) fuel

theorem walk_final (h : i.op.isFinal) (fuel used : Nat) :
    walk blocks choose fuel used [i] = ⟨[.ended i], true⟩ := by
  cases fuel with
  | zero => rw [walk, turn_final h, Option.isNone_none]
  | succ fuel => rw [walk, turn_final h]

theorem walk_goto (fuel used : Nat) (t : Ident) : walk blocks choose (fuel + 1) used [.goto t] =
      walk blocks choose fuel used (codeAt blocks t) := rfl

theorem walk_fork (fuel used : Nat) (c t e : Ident) : walk blocks choose fuel used [.fork c t e] =
      (walk blocks choose fuel (used + 1) [.goto (if choose used = 0 then e else t)]).after
        [.asked c] := by
  apply walk_of_turn <;> rfl

theorem walk_choice (fuel used : Nat) (s default : Ident) (cases : List Operand) :
    walk blocks choose fuel used [.choice s (.ref default :: cases)] =
      (walk blocks choose fuel (used + 1)
        [.goto ((caseTarget (choose used) cases).getD default)]).after [.asked s] := by
  apply walk_of_turn <;> rfl

end Walk

/-! ## Blocks of a function -/

/-- The blocks are those that control finds in the function. -/
def Written.Within (w : Written) (blocks : List Block) : Prop :=
  ∀ b ∈ w.blocks, codeAt blocks b.label = b.body

/-- The blocks are those that control finds in the function, where the last one goes on with the
given code. -/
def Draft.Within (d : Draft) (blocks : List Block) (code : List Instruction) : Prop :=
  d.toWritten.Within blocks ∧ codeAt blocks d.label = d.body ++ code

section Within

variable {blocks : List Block} {w : Written} {d : Draft} {code ending : List Instruction}
  {label : Ident} {live : Bool}

theorem Draft.within_push {more : List Instruction} :
    (d.push more).Within blocks code ↔ d.Within blocks (more ++ code) := by
  simp [Within, push, Written.Within]

theorem Draft.within_close : (d.close ending).Within blocks ↔ d.Within blocks ending := by
  simp [Within, close, Written.Within, or_imp, forall_and]

theorem Written.within_begin :
    (w.begin label live).Within blocks code ↔ w.Within blocks ∧ codeAt blocks label = code := by
  simp [Draft.Within, begin, Written.Within]

theorem Draft.within_move : (d.move ending label live).Within blocks code ↔
      d.Within blocks ending ∧ codeAt blocks label = code := by
  rw [move, Written.within_begin, within_close]

theorem Draft.Extends.within {valid : Prop} {labels : List Ident} {e : Draft}
    (h : d.Extends valid labels e) : ∀ {code}, e.Within blocks code →
    ∃ code', d.Within blocks code' := by
  induction h with
  | refl => exact fun h => ⟨_, h⟩
  | push _ _ ih => exact fun h => ih (within_push.1 h)
  | move _ _ _ _ ih => exact fun h => ih (within_move.1 h).1
  | join _ _ _ ih ih' =>
    intro code h
    obtain ⟨_, h⟩ := ih' (within_move.1 (within_push.1 h)).1
    exact ih (within_move.1 h).1

/-- What is in front of a piece is within the function if the piece is. -/
theorem Piece.within_of_emit (piece : Piece) (h : (piece.emit d).Within blocks code) :
    ∃ code', d.Within blocks code' := (piece.extends d).within h

theorem Arms.within_of_emit : (arms : Arms) → ∀ {merge : Ident} {live : Bool} {w : Written},
    (arms.emit merge live w).Within blocks → w.Within blocks
  | .nil, _, _, _, h => h
  | .cons _ body rest, _, _, _, h => by
    obtain ⟨_, h⟩ := body.within_of_emit (within_close.1 (rest.within_of_emit h))
    exact (Written.within_begin.1 h).1

theorem codeAt_of_mem (nodup : (blocks.map Block.label).Nodup) (h : ⟨label, code⟩ ∈ blocks) :
    codeAt blocks label = code := by
  have found : blocks.find? (fun b => b.label == label) = some ⟨label, code⟩ := by
    induction blocks with
    | nil => cases h
    | cons b rest ih =>
      obtain ⟨fresh, nodup⟩ := List.nodup_cons.1 nodup
      rcases List.mem_cons.1 h with rfl | h
      · simp
      · have other : b.label ≠ label := fun same => fresh (same ▸ List.mem_map_of_mem h)
        rw [List.find?_cons_of_neg (by simpa using other)]
        exact ih nodup h
  simp [codeAt, found]

theorem Draft.Within.unique (h : d.Within blocks code)
    (h' : d.Within blocks code') : code = code' :=
  List.append_cancel_left (h.2.symm.trans h'.2)

end Within

end ShaderGen
