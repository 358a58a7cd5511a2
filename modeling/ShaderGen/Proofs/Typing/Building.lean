import ShaderGen.Proofs.Scope.Frame
import ShaderGen.Proofs.Typing.Making

/-!
# Building code keeps a builder tidy

Code goes into functions, which the memories of a builder say nothing about: instructions, blocks
and functions take a tidy builder to a later one that is tidy (`Builder.Progress`).
-/

namespace ShaderGen

open Steps (ends_bind)

namespace Builder

variable {α : Type}

theorem progress_lift {c : Emit α} (h : Relates Progress c) :
    Relates Progress (liftM c : Build α) :=
  Relates.up (fun _ _ step => step) h

theorem fresh_progress : Relates Progress fresh := progress_of_calm fresh_adorned

theorem require_progress {r : Requirements} (general : r.General) : Relates Progress (require r) :=
  progress_of_calm (require_adorned general)

theorem addName_progress (n : DebugName) : Relates Progress (addName n) :=
  progress_of_calm (addName_adorned n)

theorem decorate_progress (target : Ident) {decoration : Decoration}
    (plain : decoration.topic? = none) : Relates Progress (decorate target decoration) :=
  progress_of_calm (annotate_adorned (by simp [plain, Annotation.isFirm]))

/-! ## Instructions and blocks -/

theorem pushed_progress (b : Builder) (k : Nat) (i : Instruction) {bound : Ident}
    (le : b.output.bound ≤ bound) : b.Progress (b.pushed k i bound) :=
  Calm.progress (.of_output b le rfl)

theorem append_progress (i : Instruction) : Relates Progress (append i) := fun b _ _ ends => by
  obtain ⟨k, -, -, rfl⟩ := ends_append ends
  exact b.pushed_progress k i (Nat.le_refl _)

theorem emit_progress (op : Opcode) (type : Ident) (operands : List Operand) :
    Relates Progress (emit op type operands) := fun b _ _ ends => by
  obtain ⟨-, k, -, -, rfl⟩ := ends_emit ends
  exact b.pushed_progress k _ (Nat.le_succ _)

/-- Functions, blocks and the place where code goes may change. -/
theorem progress_alter {f : Builder → Builder} (h : ∀ b : Builder, b.Calm (f b)) :
    Relates Progress (modify f : Build PUnit) := fun b _ _ ends => by
  cases ends
  exact (h b).progress

theorem endBlock_progress (i : Instruction) : Relates Progress (endBlock i) := fun b _ _ ends => by
  obtain ⟨k, -, rfl⟩ := ends_endBlock ends
  exact Calm.progress (.of_output b (Nat.le_refl _) rfl)

theorem endWith_progress (op : Opcode) (operands : List Operand) :
    Relates Progress (endWith op operands) := fun b _ _ ends => by
  obtain ⟨k, -, rfl⟩ := ends_endWith ends
  exact Calm.progress (.of_output b (Nat.le_refl _) rfl)

theorem selectBlock_progress (position : Option Nat) : Relates Progress (selectBlock position) :=
  fun b _ _ ends => by
    obtain ⟨rfl, -⟩ := ends_selectBlock ends
    exact Calm.progress (.of_output b (Nat.le_refl _) rfl)

theorem openBlock_progress (label : Ident) : Relates Progress (openBlock label) :=
    fun b _ _ ends => by
  obtain ⟨-, -, rfl⟩ := ends_openBlock ends
  exact Calm.progress (.of_output b (Nat.le_refl _) rfl)

theorem beginBlock_progress (label : Ident) : Relates Progress (beginBlock label) :=
  .bind (openBlock_progress label) fun _ =>
    progress_alter fun b => .of_output b (Nat.le_refl _) rfl

theorem markDead_progress : Relates Progress markDead :=
  .alter fun b => Calm.progress ⟨Nat.le_refl _, List.prefix_append _ _, refl_of Demands.Grows _, rfl,
    rfl, rfl, [], by simp, by simp⟩

theorem localVariable_progress (text : String) (type : Ident) :
    Relates Progress (localVariable text type) := fun b id b' ends => by
  obtain ⟨pointer, b1, _, k, _, points, -, -, -, -, rfl, names⟩ := ends_localVariable ends
  have placed := b1.pushed_progress k (variableInstruction pointer .function none b1.output.bound)
    (Nat.le_succ _)
  exact trans_of Progress (typePointer_progress _ _ b pointer b1 points)
    (trans_of Progress placed (addName_progress _ _ _ b' names))

/-! ## Functions -/

theorem addParameter_progress (type : Ident) : Relates Progress (addParameter type) :=
  fun b _ _ ends => by
    obtain ⟨-, rfl⟩ := ends_addParameter ends
    exact Calm.progress (.of_output b (Nat.le_succ _) rfl)

theorem beginFunction_progress (id : Ident) (text : String) (returnType : Ident)
    (parameterTypes : List Ident) :
    Relates Progress (beginFunction id text returnType parameterTypes) := by
  refine .bind (progress_lift (typeFunction_progress returnType parameterTypes)) fun type => ?_
  refine .bind .getBuild fun b => .guard ?_ (.bind (progress_alter fun b => ?_) fun _ => ?_)
  · exact .of_not_ends fun _ _ _ ends => by cases ends
  · exact .of_output b (Nat.le_refl _) rfl
  refine .bind (progress_lift (addName_progress _)) fun _ => ?_
  refine .bind (.mapM fun type _ => addParameter_progress type) fun parameters => ?_
  refine .bind (progress_lift fresh_progress) fun front => ?_
  refine .bind (progress_lift fresh_progress) fun code => .bind (progress_alter fun b => ?_)
    fun _ => ?_
  · exact .of_output b (Nat.le_refl _) rfl
  refine .bind (openBlock_progress front) fun _ => .bind (selectBlock_progress none) fun _ => ?_
  exact .bind (beginBlock_progress code) fun _ => .pure

theorem endFunction_progress : Relates Progress endFunction := by
  have rest : Relates Progress (do
      if !(← get).inFunction then throw (.building .mismatchedFunctionEnd)
      modifyFunction fun f => { f with ended := true }
      modify fun b =>
        { b with
          toCursor := b.toCursor.leave, inFunction := false, variablesBlock := none
          codeBlock := none } : Build Unit) := fun b _ _ ends => by
    replace ends := ends_get ends
    cases (ends_ensure ends).2
    exact Calm.progress (.of_output b (Nat.le_refl _) rfl)
  refine .bind .getBuild fun b => ?_
  split
  · refine .bind (fun b k b' ends => ?_) fun k => .bind (selectBlock_progress _) fun _ =>
      .bind (endBlock_progress _) fun _ => rest
    obtain ⟨rfl, -⟩ := ends_blockPosition ends
    exact refl_of Progress b'
  · exact rest

end Builder

end ShaderGen
