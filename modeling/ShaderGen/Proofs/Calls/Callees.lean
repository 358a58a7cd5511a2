import ShaderGen.Proofs.Control.Program

/-!
# Building without calls

`Function.callees` lists the functions that a function calls, in the order of its blocks and
instructions. New instructions go to the last block of the last function (`Builder.AtEnd`), so that
a call is added to the end of that list (`Builder.Adds`). Everything else that is built leaves the
lists alone: loads, stores, changes of representation, and the blocks of control flow. A variable
goes to a block further up, but calls nothing.
-/

namespace ShaderGen

open Steps (Ends ends_bind)

variable {i : Instruction} {b b' : Builder}

/-- The function that an instruction calls. -/
def Instruction.callee? (i : Instruction) : Option Ident :=
  match i.op, i.operands with
  | .functionCall, .ref f :: _ => some f
  | _, _ => none

theorem Instruction.callee?_eq_none (h : i.op ≠ .functionCall) : i.callee? = none := by
  unfold callee?
  split
  · exact absurd ‹_› h
  · rfl

namespace Function

/-- The functions that a function calls, in the order of its code. -/
def callees (f : Function) : List Ident :=
  f.blocks.flatMap fun block => block.body.filterMap Instruction.callee?

theorem callees_pushTo (h : i.callee? = none) (f : Function) (k : Nat) :
    (f.pushTo k i).callees = f.callees := by
  have same : ∀ blocks : List Block,
      (blocks.modify k (·.push i)).flatMap (fun block => block.body.filterMap Instruction.callee?) =
        blocks.flatMap fun block => block.body.filterMap Instruction.callee? := by
    induction k with
    | zero => rintro (_ | ⟨block, rest⟩) <;> simp [Block.push, h]
    | succ k ih => rintro (_ | ⟨block, rest⟩) <;> simp [ih]
  exact same f.blocks

theorem callees_pushTo_last (f : Function) {k : Nat} (last : k + 1 = f.blocks.length)
    (i : Instruction) : (f.pushTo k i).callees = f.callees ++ i.callee?.toList := by
  have extended : ∀ (blocks : List Block) (k : Nat), k + 1 = blocks.length →
      (blocks.modify k (·.push i)).flatMap (fun block => block.body.filterMap Instruction.callee?) =
        blocks.flatMap (fun block => block.body.filterMap Instruction.callee?) ++
        i.callee?.toList := by
    intro blocks
    induction blocks with
    | nil => simp
    | cons block rest ih =>
      rintro (_ | k) last
      · obtain rfl : rest = [] := by simpa [eq_comm] using last
        cases called : i.callee? <;> simp [Block.push, called]
      · simpa using ih k (by simpa using last)
  exact extended f.blocks k last

end Function

/-- What is read off the elements changes only in the last one. -/
theorem map_modifyLast {α β : Type} {f : α → β} {g : α → α} {h : β → β}
    (same : ∀ a, f (g a) = h (f a)) (list : List α) :
    (modifyLast g list).map f = modifyLast h (list.map f) := by
  rcases list.eq_nil_or_concat' with rfl | ⟨front, a, rfl⟩ <;> simp [modifyLast, same]

namespace Builder

/-- The functions of the module, each with those that it calls. -/
def calls (b : Builder) : List (Ident × List Ident) :=
  b.output.functions.map fun f => (f.id, f.callees)

/-- Instructions go to the last block of the function. -/
def AtEnd (b : Builder) : Prop :=
  b.inFunction = true → ∃ before f, b.output.functions = before ++ [f] ∧
    ∀ k, b.block = some k → k + 1 = f.blocks.length

/-- At the end of a function, calls of the given functions are added to it. -/
structure Adds (callees : List Ident) (b b' : Builder) : Prop where
  inFunction : b'.inFunction = b.inFunction
  atEnd : b.AtEnd → b'.AtEnd
  calls : b.AtEnd → b'.calls = modifyLast (fun f => (f.1, f.2 ++ callees)) b.calls

variable {b b' b'' : Builder} {first second : List Ident}

theorem Adds.trans (h : b.Adds first b') (g : b'.Adds second b'') :
    b.Adds (first ++ second) b'' where
  inFunction := g.inFunction.trans h.inFunction
  atEnd atEnd := g.atEnd (h.atEnd atEnd)
  calls atEnd := by
    rw [g.calls (h.atEnd atEnd), h.calls atEnd, modifyLast_modifyLast]
    simp [Function.comp_def]

/-- Nothing is called where the lists of calls are the same. -/
theorem Adds.same (inFunction : b'.inFunction = b.inFunction) (atEnd : b.AtEnd → b'.AtEnd)
    (calls : b'.calls = b.calls) : b.Adds [] b' := by
  refine ⟨inFunction, atEnd, fun _ => ?_⟩
  have unchanged : (fun f : Ident × List Ident => (f.1, f.2 ++ [])) = id := by simp [funext_iff]
  rw [calls, unchanged, modifyLast_id]

/-- The lists of calls are the same where nothing is called. -/
theorem Adds.calls_eq (h : b.Adds [] b') (atEnd : b.AtEnd) : b'.calls = b.calls := by
  have unchanged : (fun f : Ident × List Ident => (f.1, f.2 ++ [])) = id := by simp [funext_iff]
  rw [h.calls atEnd, unchanged, modifyLast_id]

theorem AtEnd.of_outside (outside : b.inFunction = false) : b.AtEnd := fun inside => by
  cases outside.symm.trans inside

instance : IsPreorder Builder (Adds []) where
  refl _ := .same rfl id rfl
  trans _ _ _ h g := h.trans g

/-- The step calls nothing. -/
abbrev CallFree {m : Type → Type} [Monad m] [Steps m Builder] {α : Type} (c : m α) : Prop :=
  Relates (Adds []) c

theorem SameCode.adds (h : b.SameCode b') : b.Adds [] b' := by
  refine .same h.inFunction (fun atEnd inside => ?_) ?_
  · rw [h.functions, h.block]
    exact atEnd (h.inFunction ▸ inside)
  · rw [calls, h.functions, calls]

end Builder

theorem Silent.callFree {m : Type → Type} [Monad m] [Steps m Builder] {α : Type} {c : m α}
    (h : Silent .inside c) : Builder.CallFree c :=
  fun b a b' ends => Builder.SameCode.adds (h.leads b a b' ends)

namespace Builder

variable {α : Type} {b : Builder}

/-! ## Instructions and blocks -/

theorem AtEnd.pushed (h : b.AtEnd) (k : Nat) (i : Instruction) (bound : Ident) :
    (b.pushed k i bound).AtEnd := by
  intro inside
  obtain ⟨before, f, functions, last⟩ := h inside
  refine ⟨before, f.pushTo k i, by simp [Builder.pushed, functions], fun j hj => ?_⟩
  simpa [Function.pushTo] using last j hj

theorem calls_pushed (b : Builder) (k : Nat) (h : i.callee? = none) (bound : Ident) :
    (b.pushed k i bound).calls = b.calls := by
  have same := map_modifyLast (f := fun f : Function => (f.id, f.callees)) (g := (·.pushTo k i))
    (h := id) (fun f => by rw [f.callees_pushTo h]; rfl) b.output.functions
  exact same.trans (modifyLast_id _)

theorem adds_pushed (b : Builder) (k : Nat) (h : i.op ≠ .functionCall) (bound : Ident) :
    b.Adds [] (b.pushed k i bound) :=
  .same rfl (fun atEnd => atEnd.pushed k i bound)
  (b.calls_pushed k (Instruction.callee?_eq_none h) bound)

theorem adds_closed (closed : b'.block = none) (inFunction : b'.inFunction = b.inFunction)
    (functions : b'.output.functions = b.output.functions) : b.Adds [] b' := by
  refine .same inFunction (fun atEnd inside => ?_) (by rw [calls, functions, calls])
  obtain ⟨before, f, split, -⟩ := atEnd (inFunction ▸ inside)
  exact ⟨before, f, functions.trans split, fun k hk => by simp [closed] at hk⟩

theorem adds_moved (block : b'.block = b.block) (inFunction : b'.inFunction = b.inFunction)
    (functions : b'.output.functions = b.output.functions) : b.Adds [] b' := by
  refine .same inFunction (fun atEnd inside => ?_) (by rw [calls, functions, calls])
  rw [functions, block]
  exact atEnd (inFunction ▸ inside)

theorem append_callFree (h : i.op ≠ .functionCall) : CallFree (append i) := by
  intro b _ b' ends
  obtain ⟨k, -, -, rfl⟩ := ends_append ends
  exact b.adds_pushed k h _

theorem emit_adds {type f id : Ident} {arguments : List Operand}
    (ends : Ends (emit .functionCall type (.ref f :: arguments)) b id b') : b.Adds [f] b' := by
  obtain ⟨-, k, inside, hk, rfl⟩ := ends_emit ends
  refine ⟨rfl, fun atEnd => atEnd.pushed k _ _, fun atEnd => ?_⟩
  obtain ⟨before, g, functions, last⟩ := atEnd inside
  have called := g.callees_pushTo_last (last k hk)
    { op := .functionCall, type := some type, result := some id, operands := .ref f :: arguments }
  simp only [calls, Builder.pushed, functions, modifyLast_append_singleton, List.map_append,
    List.map_cons, List.map_nil, called]
  rfl

theorem endBlock_callFree (h : i.op ≠ .functionCall) : CallFree (endBlock i) := by
  intro b _ b' ends
  obtain ⟨k, -, rfl⟩ := ends_endBlock ends
  exact (b.adds_pushed k h _).trans (adds_closed rfl rfl rfl)

theorem closeBlock_callFree : CallFree (selectBlock none) := by
  intro b _ b' ends
  obtain ⟨rfl, -⟩ := ends_selectBlock ends
  exact adds_closed rfl rfl rfl

theorem openBlock_callFree (label : Ident) : CallFree (openBlock label) := by
  intro b _ b' ends
  obtain ⟨inside, -, rfl⟩ := ends_openBlock ends
  refine .same rfl (fun atEnd _ => ?_) ?_
  · obtain ⟨before, f, functions, -⟩ := atEnd inside
    refine ⟨before, f.withBlock label, by simp [opened, functions], fun k hk => ?_⟩
    simp only [opened, blockCount, functions, modifyLast_append_singleton, List.getLast?_append,
      Option.some.injEq] at hk
    simp [Function.withBlock] at hk ⊢
    omega
  · have same := map_modifyLast (f := fun f : Function => (f.id, f.callees))
      (g := (·.withBlock label)) (h := id) (fun f => by simp [Function.callees, Function.withBlock])
      b.output.functions
    exact same.trans (modifyLast_id _)

theorem modify_callFree {f : Builder → Builder} (h : ∀ b : Builder, b.Adds [] (f b)) :
    CallFree (modify f : Build PUnit) := fun b _ _ ends => by
  cases ends
  exact h b

theorem beginBlock_callFree (label : Ident) : CallFree (beginBlock label) :=
  .bind (openBlock_callFree label) fun _ => modify_callFree fun _ => adds_moved rfl rfl rfl

theorem markDead_callFree : CallFree markDead := .alter fun _ => adds_moved rfl rfl rfl

theorem endWith_callFree {op : Opcode} (h : op ≠ .functionCall) (operands : List Operand) :
    CallFree (endWith op operands) :=
  .bind (append_callFree h) fun _ => .bind closeBlock_callFree fun _ => modify_callFree fun _ =>
  adds_moved rfl rfl rfl

/-! ## Variables -/

theorem variableOf_callFree (pointerType : Ident) (storage : StorageClass) (init : Option Ident) :
    CallFree (variableOf pointerType storage init) := by
  intro b id b' ends
  obtain ⟨-, ⟨k, -, -, rfl⟩ | ⟨-, rfl⟩⟩ := ends_variableOf ends
  · exact b.adds_pushed k (by simp [variableInstruction]) _
  · exact adds_moved rfl rfl rfl

theorem globalVariable_callFree (type : Ident) (storage : StorageClass) (text : String)
    (init : Option Ident) : CallFree (globalVariable type storage text init) := by
  refine .bind (typePointer_provides storage type).silent.callFree fun pointer => ?_
  refine .bind (variableOf_callFree pointer storage init) fun id => ?_
  refine .bind (addName_provides _).silent.callFree fun _ => .bind .getEmit fun b => ?_
  exact .guard (.alter fun _ => adds_moved rfl rfl rfl) .pure

/-- The block of variables takes instructions only for the time of the step. -/
theorem localVariable_callFree (text : String) (type : Ident) :
    CallFree (localVariable text type) := by
  intro b id b' ends
  obtain ⟨pointer, b1, label, k, f, hpointer, -, -, -, -, -, named⟩ := ends_localVariable ends
  have placed := b1.adds_pushed k (i := variableInstruction pointer .function none id)
    (by simp [variableInstruction]) (id + 1)
  exact ((typePointer_provides .function type).silent.callFree _ _ _ hpointer).trans
    (placed.trans ((addName_provides _).silent.callFree _ _ _ named))

/-! ## Functions -/

theorem beginFunction_adds {id returnType : Ident} {text : String} {types ids : List Ident}
    (outside : b.inFunction = false)
    (ends : Ends (beginFunction id text returnType types) b ids b') :
    b'.AtEnd ∧ b'.calls = b.calls ++ [(id, [])] := by
  obtain ⟨head, front, rfl, -, at_, -⟩ := at_beginFunction rfl outside ends
  refine ⟨fun _ => ⟨_, _, at_.functions, fun k hk => ?_⟩, ?_⟩
  · obtain rfl : 1 = k := by simpa [at_.block] using hk
    simp [Draft.all]
  · simp [calls, at_.functions, Site.functions, Draft.all, Function.callees]

theorem endFunction_adds {u : Unit} (ends : Ends endFunction b u b') :
    b'.inFunction = false ∧ b'.calls = b.calls := by
  have last : ∀ c : Builder, Ends (do
      if !(← get).inFunction then throw (.building .mismatchedFunctionEnd)
      modifyFunction fun f => { f with ended := true }
      modify fun b =>
        { b with
          toCursor := b.toCursor.leave, inFunction := false, variablesBlock := none
          codeBlock := none } : Build Unit) c u b' → b'.inFunction = false ∧
            b'.calls = c.calls := by
    intro c ends
    replace ends := ends_get ends
    obtain ⟨-, ends⟩ := ends_ensure ends
    cases ends
    have same := map_modifyLast (f := fun f : Function => (f.id, f.callees))
      (g := fun f => { f with ended := true }) (h := id) (fun _ => rfl) c.output.functions
    exact ⟨rfl, same.trans (modifyLast_id _)⟩
  replace ends := ends_get ends
  split at ends
  · obtain ⟨k, b1, hposition, _, b2, hselect, ends2⟩ := ends_bind₂ ends
    obtain ⟨_, b3, hend, ends3⟩ := ends_bind ends2
    obtain ⟨rfl, -⟩ := ends_blockPosition hposition
    obtain ⟨rfl, -⟩ := ends_selectBlock hselect
    obtain ⟨j, -, rfl⟩ := ends_endBlock hend
    obtain ⟨outside, calls⟩ := last _ ends3
    exact ⟨outside, calls.trans (calls_pushed _ j (Instruction.callee?_eq_none (by simp)) _)⟩
  · exact last b ends

theorem Elementary.adds (h : b.Elementary b') : b.Adds [] b' := by
  cases h with
  | fresh ends => exact fresh_silent.callFree _ _ _ ends
  | addCapability ends => exact (addCapability_provides _).silent.callFree _ _ _ ends
  | useExtension _ ends => exact (useExtension_provides _).silent.callFree _ _ _ ends
  | markNonUniform ends => exact (decorate_provides _ _).silent.callFree _ _ _ ends
  | importSet ends => exact (importSet_provides _).silent.callFree _ _ _ ends
  | typeBool ends => exact typeBool_provides.silent.callFree _ _ _ ends
  | typeInt ends => exact (typeInt_provides _ _).silent.callFree _ _ _ ends
  | typeFloat ends => exact (typeFloat_provides _).silent.callFree _ _ _ ends
  | typeVector ends => exact (typeVector_provides _ _).silent.callFree _ _ _ ends
  | typePointer ends => exact (typePointer_provides _ _).silent.callFree _ _ _ ends
  | typeStruct ends => exact (typeStruct_provides _ _).silent.callFree _ _ _ ends
  | constBits ends => exact (constBits_provides _ _).silent.callFree _ _ _ ends
  | constFilled ends => exact (constFilled_provides _ _).silent.callFree _ _ _ ends
  | constComposite ends => exact (constComposite_provides _ _).silent.callFree _ _ _ ends
  | constNull ends => exact (constNull_provides _).silent.callFree _ _ _ ends
  | append noCall ends => exact append_callFree noCall _ _ _ ends
  | localVariable ends => exact localVariable_callFree _ _ _ _ _ ends
  | endBlock noCall ends => exact endBlock_callFree noCall _ _ _ ends
  | endWith noCall ends => exact endWith_callFree noCall _ _ _ _ ends
  | beginBlock ends => exact beginBlock_callFree _ _ _ _ ends
  | markDead ends => exact markDead_callFree _ _ _ ends

end Builder

end ShaderGen
