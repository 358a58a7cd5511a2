import Mathlib.Logic.Relation
import ShaderGen.Proofs.Scope.Blocks
import ShaderGen.Proofs.Typing.Demands

/-!
# The elementary steps of building

`Builder.Elementary` lists the steps that code is built of, apart from calls: types and constants,
instructions, variables, and the beginnings and ends of blocks. All other building steps are made of
these (`Builder.Building`), so that what every elementary step keeps, they keep as well. Each of
them is made where the builder can do it: instructions go to an open block, and blocks begin where
none is open.
-/

namespace ShaderGen

open Steps (Ends Fails ends_bind)

namespace Builder

variable {effect : Effect Builder} {k : Nat} {op : Opcode}

/-- One step of building. -/
inductive Elementary : Builder → Builder → Prop
  | fresh {b b' : Builder} {id : Ident} (ends : Ends fresh b id b') : Elementary b b'
  | addCapability {b b' : Builder} {c : Capability} {u : Unit}
      (ends : Ends (addCapability c) b u b') : Elementary b b'
  | useExtension {b b' : Builder} {e : Extension} {u : Unit} (general : e ∈ Extension.all)
      (ends : Ends (useExtension e) b u b') : Elementary b b'
  | markNonUniform {b b' : Builder} {id : Ident} {u : Unit}
      (ends : Ends (decorate id .nonUniform) b u b') : Elementary b b'
  | importSet {b b' : Builder} {name : String} {id : Ident} (ends : Ends (importSet name) b id b') :
      Elementary b b'
  | typeBool {b b' : Builder} {id : Ident} (ends : Ends typeBool b id b') : Elementary b b'
  | typeInt {b b' : Builder} {width : Nat} {signed : Bool} {id : Ident}
      (ends : Ends (typeInt width signed) b id b') : Elementary b b'
  | typeFloat {b b' : Builder} {width : Nat} {id : Ident} (ends : Ends (typeFloat width) b id b') :
      Elementary b b'
  | typeVector {b b' : Builder} {component : Ident} {count : Nat} {id : Ident}
      (ends : Ends (typeVector component count) b id b') : Elementary b b'
  | typePointer {b b' : Builder} {storage : StorageClass} {pointee id : Ident}
      (ends : Ends (typePointer storage pointee) b id b') : Elementary b b'
  | typeStruct {b b' : Builder} {members : List Ident} {text : String} {id : Ident}
      (ends : Ends (typeStruct members text) b id b') : Elementary b b'
  | constBits {b b' : Builder} {type : Ident} {bits : Nat} {id : Ident}
      (ends : Ends (constBits type bits) b id b') : Elementary b b'
  | constFilled {b b' : Builder} {type : Ident} {value : Nat} {id : Ident}
      (ends : Ends (constFilled type value) b id b') : Elementary b b'
  | constComposite {b b' : Builder} {type : Ident} {parts : List Ident} {id : Ident}
      (ends : Ends (constComposite type parts) b id b') : Elementary b b'
  | constNull {b b' : Builder} {type : Ident} {id : Ident} (ends : Ends (constNull type) b id b') :
      Elementary b b'
  | append {b b' : Builder} {i : Instruction} {u : Unit} (noCall : i.op ≠ .functionCall)
      (ends : Ends (append i) b u b') : Elementary b b'
  | localVariable {b b' : Builder} {text : String} {type id : Ident}
      (ends : Ends (localVariable text type) b id b') : Elementary b b'
  | endBlock {b b' : Builder} {i : Instruction} {u : Unit} (noCall : i.op ≠ .functionCall)
      (ends : Ends (endBlock i) b u b') : Elementary b b'
  | endWith {b b' : Builder} {op : Opcode} {operands : List Operand} {u : Unit}
      (noCall : op ≠ .functionCall) (ends : Ends (endWith op operands) b u b') : Elementary b b'
  | beginBlock {b b' : Builder} {label : Ident} {u : Unit} (ends : Ends (beginBlock label) b u b') :
      Elementary b b'
  | markDead {b b' : Builder} {u : Unit} (ends : Ends markDead b u b') : Elementary b b'

/-- Several elementary steps. -/
abbrev Builds : Builder → Builder → Prop := Relation.ReflTransGen Elementary

/-- What building steps may do. -/
def Building : Effect Builder := ⟨Builds, fun _ _ => False⟩

instance : Content Building := ⟨fun _ => .refl, .trans, id⟩

variable {α : Type} {w x y : Stance} {b b' : Builder} {label : Ident} {i : Instruction}

theorem acts_lift {c : Emit α} (h : Acting x y Building c) :
    Acting x y Building (liftM c : Build α) :=
  .up (fun _ _ step => step) h

theorem fresh_acts : Acting w w Building fresh := fresh_silent.retell fun _ _ _ ends =>
    .single (.fresh ends)

/-! ## Where steps are made -/

theorem Stands.pushed (h : b.Stands w) (k : Nat) (i : Instruction) (bound : Ident) :
    (b.pushed k i bound).Stands w := by
  have label : ∀ here : Block, (if b.block = some k then here.push i else here).label =
    here.label := by
    intro here
    split <;> rfl
  cases w with
  | outside => exact h
  | between =>
    obtain ⟨f, current⟩ := Option.isSome_iff_exists.1 h.1
    exact ⟨by rw [current?_pushed current]; rfl, h.2⟩
  | opened =>
    obtain ⟨here, selected⟩ := Option.isSome_iff_exists.1 h
    rw [Stands, here?_pushed selected]
    rfl
  | inside =>
    obtain ⟨here, selected, current⟩ := h
    exact ⟨_, here?_pushed selected, current.trans (by rw [label])⟩

theorem Stands.opened (h : b.Stands .inside) : b.Stands .opened := by
  obtain ⟨here, selected, -⟩ := h
  rw [Stands, selected]
  rfl

theorem exists_selected {here : Block} (h : b.here? = some here) :
    ∃ f k, b.current? = some f ∧ b.inFunction = true ∧ b.block = some k ∧ k < b.blockCount := by
  obtain ⟨f, current, k, selected, found⟩ := by simpa [here?, Option.bind_eq_some_iff] using h
  obtain ⟨inside, fs, functions⟩ := exists_functions current
  refine ⟨f, k, current, inside, selected, ?_⟩
  simpa [blockCount, functions] using (List.getElem?_eq_some_iff.1 found).1

/-- A step that is sure to succeed where it is made. -/
theorem acts_of_run {c : Build α} (leads : Relates effect.leads c)
    (run : ∀ b : Builder, b.Stands x → ∃ a b', Ends c b a b' ∧ b'.Stands y) (blind : Blind c) :
    Acting x y effect c := by
  have sure : ∀ b e, b.Stands x → ¬ Fails c b e := by
    rintro b e stands ⟨t, fails⟩
    obtain ⟨a, b', ends, -⟩ := run b stands
    cases fails.symm.trans ends
  refine ⟨leads, fun b a t stands ends => ?_, fun b e stands fails =>
    absurd fails (sure b e stands), blind⟩
  obtain ⟨a', b', ends', stands'⟩ := run b stands
  cases ends.symm.trans ends'
  exact stands'

/-- A check that is passed where it is made, and what follows. -/
theorem acts_ensure {c : Builder → Bool} {misuse : Misuse} {f : Unit → Build α}
    (never : ∀ b, b.Stands x → c b = false) (same : ∀ b, c b.stripped = c b)
    (hf : Acting x y effect (f ⟨⟩)) :
    Acting x y effect (get >>= fun b => if c b then throw (.building misuse) >>= f else f ⟨⟩) := by
  have passed : ∀ b, b.Stands x → (if c b then throw (.building misuse) >>= f else f ⟨⟩) = f ⟨⟩ :=
    fun b stands => by simp [never b stands]
  refine ⟨fun b a b' ends => ?_, fun b a b' stands ends => ?_, fun b e stands fails => ?_,
    .lookFailing (fun b => ?_) fun b => .ensure hf.blind⟩
  · exact hf.leads b a b' (ends_ensure (c := c b = true) ends).2
  · exact hf.steady b a b' stands (ends_ensure (c := c b = true) ends).2
  · exact hf.fails b e stands (passed b stands ▸ fails)
  · rw [show c (World.strip b) = c b from same b]

/-! ## Instructions and blocks -/

theorem append_any (open_ : ∀ b : Builder, b.Stands w → b.Stands .opened) (i : Instruction) :
    Acting w w .any (append i) := by
  refine acts_of_run (fun _ _ _ _ => trivial) (fun b stands => ?_)
    (.lookFailing (fun _ => rfl) fun b => ?_)
  · obtain ⟨here, selected⟩ := Option.isSome_iff_exists.1 (open_ b stands)
    obtain ⟨-, k, -, inside, block, -⟩ := exists_selected selected
    exact ⟨_, _, append_ends inside block i, stands.pushed k i _⟩
  · split
    · exact .up (.alter fun _ => rfl)
    · exact .throw

theorem append_acts (noCall : i.op ≠ .functionCall) : Acts Building (append i) :=
  (append_any (fun _ => Stands.opened) i).retell fun _ _ _ ends => .single (.append noCall ends)

theorem emit_any (op : Opcode) (type : Ident) (operands : List Operand) :
    Acts .any (emit op type operands) :=
  .bind fresh_silent.lift.forget fun _ => .bind (append_any (fun _ => Stands.opened) _) fun _ =>
  .pure

theorem emit_acts (noCall : op ≠ .functionCall) (type : Ident) (operands : List Operand) :
    Acts Building (emit op type operands) :=
  .bind (acts_lift fresh_acts) fun _ => .bind (append_acts noCall) fun _ => .pure

theorem emitVoid_acts (noCall : op ≠ .functionCall) (operands : List Operand) :
    Acts Building (emitVoid op operands) := append_acts noCall

theorem Stands.halted (h : b.Stands .opened) (cursor : Cursor) :
    (b.halted cursor).Stands .between := by
  obtain ⟨here, selected⟩ := Option.isSome_iff_exists.1 h
  obtain ⟨f, -, current, -⟩ := exists_selected selected
  exact ⟨Option.isSome_of_eq_some current, rfl⟩

theorem endBlock_any (i : Instruction) : Acting .opened .between .any (endBlock i) := by
  refine acts_ensure (c := fun b => b.block.isNone) (fun b stands => ?_) (fun _ => rfl) ?_
  · obtain ⟨here, selected⟩ := Option.isSome_iff_exists.1 stands
    obtain ⟨-, k, -, -, block, -⟩ := exists_selected selected
    simp [block]
  · refine .bind (append_any (fun _ => id) i) fun _ => ?_
    exact .alterBuild (fun _ => trivial) (fun b stands => stands.halted b.toCursor) fun _ => rfl

/-- A block is open in particular if control stands in it. -/
theorem acts_inside {c : Build α} (h : Acting .opened y effect c) : Acting .inside y effect c :=
  { h with
    steady := fun b a b' stands => h.steady b a b' (Stands.opened stands)
    fails := fun b e stands => h.fails b e (Stands.opened stands) }

theorem endBlock_acts (noCall : i.op ≠ .functionCall) :
    Acting .inside .between Building (endBlock i) :=
  (acts_inside (endBlock_any i)).retell fun _ _ _ ends => .single (.endBlock noCall ends)

theorem selectNone_any : Acting .opened .between .any (selectBlock none) :=
  .alterBuild (fun _ => trivial) (fun b stands => stands.halted b.toCursor) fun _ => rfl

theorem endWith_acts (noCall : op ≠ .functionCall) (operands : List Operand) :
    Acting .inside .between Building (endWith op operands) := by
  have any : Acting .inside .between .any (endWith op operands) := by
    refine .bind (append_any (fun _ => Stands.opened) _) fun _ => .bind (acts_inside selectNone_any)
      fun _ => ?_
    exact .alterBuild (fun _ => trivial) (fun _ stands => stands) fun _ => rfl
  exact any.retell fun _ _ _ ends => .single (.endWith noCall ends)

theorem Stands.begun (h : b.Stands .between) (label : Ident) (count : k = b.blockCount)
    (cursor : Cursor) :
    ∃ here, (b.opened label (some k) cursor).here? = some here ∧ here.label = label := by
  obtain ⟨f, current⟩ := Option.isSome_iff_exists.1 h.1
  obtain ⟨-, fs, functions⟩ := exists_functions current
  have last : k = f.blocks.length := by simp [count, blockCount, functions]
  refine ⟨{ label }, ?_, rfl⟩
  rw [here?, current?_opened current]
  simp [Builder.opened, last, Function.withBlock]

theorem openBlock_any (label : Ident) : Acting .between .opened .any (openBlock label) := by
  refine acts_of_run (fun _ _ _ _ => trivial) (fun b stands => ?_)
    (.lookFailing (fun _ => rfl) fun b => ?_)
  · obtain ⟨f, current⟩ := Option.isSome_iff_exists.1 stands.1
    obtain ⟨inside, -⟩ := exists_functions current
    have count : (b.opened label none b.toCursor).blockCount - 1 = b.blockCount := by
      rw [blockCount_opened current, Nat.add_sub_cancel]
    refine ⟨(), b.opened label (some ((b.opened label none b.toCursor).blockCount - 1))
      b.toCursor, ?_, ?_⟩
    · have looked : Ends (get : Build Builder) b b b := rfl
      refine Steps.bind_ends looked ?_
      simp only [inside, stands.2]
      rfl
    · obtain ⟨here, selected, -⟩ := stands.begun label count b.toCursor
      exact Option.isSome_of_eq_some selected
  · exact .ensure
      (.ensure (.bind (.up (.alter fun _ => rfl)) fun _ => (Blind.alter fun _ => rfl).up
      (n := Build)))

theorem beginBlock_acts (label : Ident) : Acting .between .inside Building (beginBlock label) := by
  have any : Acting .between .opened .any (beginBlock label) :=
    .bind (openBlock_any label) fun _ => .alterBuild (fun _ => trivial) (fun _ stands => stands)
    fun _ => rfl
  refine { (any.retell fun _ _ _ ends => .single (.beginBlock ends) : Acting .between
    .opened Building _) with
    steady := fun b _ b' stands ends => ?_ }
  obtain ⟨f, current⟩ := Option.isSome_iff_exists.1 stands.1
  obtain rfl := ends_beginBlock current ends
  obtain ⟨here, selected, rfl⟩ := stands.begun label rfl (b.toCursor.enter label)
  exact ⟨here, selected, rfl⟩

theorem markDead_acts : Acts Building markDead :=
  .alter (fun _ => .single (.markDead rfl)) (fun _ stands => stands) fun _ => rfl

theorem beginDeadBlock_acts : Acting .between .inside Building beginDeadBlock :=
  .bind (acts_lift fresh_acts) fun label => .bind (beginBlock_acts label) fun _ =>
    acts_lift markDead_acts

theorem branchConditional_acts (condition thenBlock elseBlock merge : Ident) :
    Acting .inside .between Building (branchConditional condition thenBlock elseBlock merge) :=
  .bind (emitVoid_acts (by decide) _) fun _ => endBlock_acts (by simp)

theorem terminate_acts (noCall : op ≠ .functionCall) (operands : List Operand) :
    Acts Building (terminate op operands) :=
  .bind (endWith_acts noCall operands) fun _ => beginDeadBlock_acts

theorem finishBlock_acts (target : Ident) :
    Acting .inside .between Building (finishBlock target) := by
  refine .lookBuild (fun _ => rfl) fun b => ?_
  split
  · exact endBlock_acts (by simp)
  · exact endWith_acts (by decide) _

/-! ## Variables -/

theorem selectBlock_ends (inside : b.inFunction = true) (below : k < b.blockCount) :
    Ends (selectBlock (some k)) b () { b with block := some k } := by
  have looked : Ends (get : Build Builder) b b b := rfl
  rw [selectBlock_eq]
  refine Steps.bind_ends looked ?_
  rw [if_pos inside, if_pos below]
  rfl

theorem selectBlock_blind (position : Option Nat) : Blind (selectBlock position) := by
  have alters : ∀ position : Option Nat,
    Blind (modify fun b => { b with block := position } : Build Unit) :=
    fun _ => (Blind.alter fun _ => rfl).up (n := Build)
  cases position with
  | none => exact alters none
  | some k =>
    rw [selectBlock_eq]
    refine .lookFailing (fun _ => rfl) fun b => ?_
    split
    · split
      · exact alters (some k)
      · exact .throw
    · exact .throw

theorem blockPosition_any (label : Ident) : Acting w w .any (blockPosition label) := by
  refine .lookBuild (fun _ => rfl) fun b => ?_
  split
  · exact .failBuild rfl
  · split
    · exact .pure
    · exact .failBuild rfl

theorem variableOf_any (pointerType : Ident) (storage : StorageClass) (init : Option Ident) :
    Acting w w .any (variableOf pointerType storage init) := by
  refine .emit (fun _ _ _ _ => trivial) (fun b id b' stands ends => ?_) ?_
  · obtain ⟨-, ⟨k, -, -, rfl⟩ | ⟨-, rfl⟩⟩ := ends_variableOf ends
    · exact stands.pushed k _ _
    · exact SameCode.stands ⟨rfl, rfl, rfl⟩ stands
  · refine .bind (fresh_silent (w := .outside)).blind fun id => .bind ?_ fun _ => .pure
    refine .lookEmit (fun _ => rfl) fun b => ?_
    split <;> exact .alter fun _ => rfl

theorem globalVariable_any (type : Ident) (storage : StorageClass) (text : String)
    (init : Option Ident) : Acting w w .any (globalVariable type storage text init) := by
  refine .bind (typePointer_provides storage type).acts.forget fun pointer => ?_
  refine .bind (variableOf_any pointer storage init) fun id =>
    .bind (addName_provides _).acts.forget fun _ => ?_
  refine .lookEmit (fun _ => rfl) fun b => .guard (fun _ => ?_) .pure
  exact .alter (fun _ => trivial) (fun _ => SameCode.stands ⟨rfl, rfl, rfl⟩) fun _ => rfl

theorem Stands.selectable (h : b.Stands w) (selected : b.block = some k) :
    b.inFunction = true ∧ k < b.blockCount := by
  have here : b.here?.isSome := by
    cases w with
    | outside => cases h.2.1.symm.trans selected
    | between => cases h.2.symm.trans selected
    | opened => exact h
    | inside => exact h.opened
  obtain ⟨block, here⟩ := Option.isSome_iff_exists.1 here
  obtain ⟨-, j, -, inside, block, below⟩ := exists_selected here
  cases block.symm.trans selected
  exact ⟨inside, below⟩

theorem Stands.current (h : b.Stands w) (front : b.variablesBlock = some label) :
    b.current?.isSome := by
  have here : b.Stands .opened → b.current?.isSome := fun stands => by
    obtain ⟨block, here⟩ := Option.isSome_iff_exists.1 stands
    obtain ⟨f, -, current, -⟩ := exists_selected here
    exact Option.isSome_of_eq_some current
  cases w with
  | outside => cases h.2.2.symm.trans front
  | between => exact h.1
  | opened => exact here h
  | inside => exact here h.opened

theorem Stands.select_ends (h : b.Stands w) {c : Builder} (inFunction : c.inFunction = b.inFunction)
    (count : c.blockCount = b.blockCount) :
    Ends (selectBlock b.block) c () { c with block := b.block } := by
  cases selected : b.block with
  | none => rfl
  | some j =>
    obtain ⟨inside, below⟩ := h.selectable selected
    exact selectBlock_ends (inFunction.trans inside) (count ▸ below)

/-- Once its block has been found, a variable goes there, and the builder selects again what it had
selected. -/
theorem Stands.place_ends (h : b.Stands w) {pointer : Ident} {text : String}
    (front : b.variablesBlock = some label) (found : Ends (blockPosition label) b k b) :
    ∃ id b', Ends (do
      selectBlock (some k)
      let id ← variableOf pointer .function none
      selectBlock b.block
      name id text
      return id : Build Ident) b id b' ∧ b'.Stands w := by
  obtain ⟨f, current⟩ := Option.isSome_iff_exists.1 (h.current front)
  obtain ⟨inside, fs, functions⟩ := exists_functions current
  obtain ⟨-, g, last, position⟩ := ends_blockPosition found
  obtain rfl : f = g := by simpa [functions] using last
  have below : k < b.blockCount := by
    have := (List.findIdx?_eq_some_iff_findIdx_eq.1 position).1
    simpa [blockCount, functions, Function.labels] using this
  have selects := selectBlock_ends inside below
  obtain ⟨id, b2, places⟩ : ∃ id b2, Ends (variableOf pointer .function none)
      { b with block := some k } id b2 := ⟨_, _, rfl⟩
  obtain ⟨-, ⟨j, -, same, rfl⟩ | ⟨closed, -⟩⟩ := ends_variableOf places
  · obtain rfl := Option.some.inj same
    let i := variableInstruction pointer .function none id
    have again := h.select_ends (c := { b with block := some k }.pushed k i (b.output.bound + 1))
      rfl
      blockCount_pushed
    obtain ⟨b4, names⟩ : ∃ b4, Ends (name id text) (b.pushed k i (b.output.bound + 1)) () b4 :=
      ⟨_, rfl⟩
    refine ⟨id, b4, Steps.bind_ends selects (Steps.bind_ends (Embeds.lift_ends places)
      (Steps.bind_ends again (Steps.bind_ends (Embeds.lift_ends names) Steps.pure_ends))), ?_⟩
    exact (addName_provides _).acts.steady _ _ _ (h.pushed k _ _) names
  · simp [inside] at closed

/-- A variable goes to its block, wherever the builder stands, and the builder is left standing
there. -/
theorem placeVariable_any (text : String) (pointer : Ident) : Acting w w .any (do
    let b ← get
    match b.variablesBlock with
    | none => Build.fail .variableOutsideFunction
    | some label =>
      selectBlock (some (← blockPosition label))
      let id ← variableOf pointer .function none
      selectBlock b.block
      name id text
      return id : Build Ident) := by
  have position : ∀ label, Acting w w .any (blockPosition label) := blockPosition_any
  refine ⟨fun _ _ _ _ => trivial, fun b id b' stands ends => ?_, fun b e stands fails => ?_,
    .lookFailing (fun _ => rfl) fun b => ?_⟩
  · replace ends := ends_get ends
    split at ends
    · cases ends
    · obtain ⟨k, b1, found, ends⟩ := ends_bind ends
      obtain ⟨rfl, -⟩ := ends_blockPosition found
      obtain ⟨_, _, ends', stands'⟩ := stands.place_ends ‹_› found
      cases ends.symm.trans ends'
      exact stands'
  · obtain ⟨t, fails⟩ | ⟨_, _, looked, fails⟩ := Steps.fails_bind fails
    · cases fails
    cases looked
    split at fails
    · obtain ⟨t, fails⟩ := fails
      cases fails
      exact ⟨rfl, fun _ wanted => by cases wanted⟩
    · obtain fails | ⟨k, b1, found, t, fails⟩ := Steps.fails_bind fails
      · exact (position _).fails b e stands fails
      · obtain ⟨rfl, -⟩ := ends_blockPosition found
        obtain ⟨_, _, ends, -⟩ := stands.place_ends ‹_› found
        cases fails.symm.trans ends
  · split
    · exact .throw
    · refine .bind (position _).blind fun k => .bind (selectBlock_blind _) fun _ => ?_
      refine .bind (.up (variableOf_any (w := w) _ _ _).blind) fun id => .bind (selectBlock_blind _)
        fun _ => ?_
      exact .bind (.up (addName_provides (w := w) _).acts.blind) fun _ => .pure

theorem localVariable_acts (text : String) (type : Ident) :
    Acting w w Building (localVariable text type) := by
  have any : Acting w w .any (localVariable text type) :=
    .bind (typePointer_provides .function type).silent.lift.forget (placeVariable_any text)
  exact any.retell fun _ _ _ ends => .single (.localVariable ends)

/-! ## Functions -/

theorem Stands.inFunction (h : b.Stands .between) : b.inFunction = true := by
  obtain ⟨f, current⟩ := Option.isSome_iff_exists.1 h.1
  exact (exists_functions current).1

theorem modifyFunction_any (f : Function → Function) :
    Acting .between .between .any (liftM (modifyFunction f) : Build Unit) := by
  suffices any : Acting .between .between .any (modifyFunction f) from any.up fun _ _ _ => trivial
  refine .alter (fun _ => trivial) (fun b stands => ?_) fun _ => rfl
  refine ⟨?_, stands.2⟩
  have last := stands.1
  simp only [current?, stands.inFunction, if_true] at last ⊢
  rwa [getLast?_modifyLast, Option.isSome_map]

theorem addParameter_any (type : Ident) : Acting .between .between .any (addParameter type) := by
  refine acts_ensure (c := fun b => !b.inFunction) (fun b stands => ?_) (fun _ => rfl) ?_
  · simp [stands.inFunction]
  · exact .bind fresh_silent.lift.forget fun id => .bind (modifyFunction_any _) fun _ => .pure

theorem beginFunction_any (id : Ident) (text : String) (returnType : Ident) (types : List Ident) :
    Acting .outside .inside .any (beginFunction id text returnType types) := by
  refine .bind (typeFunction_provides returnType types).silent.lift.forget fun type =>
    acts_ensure (fun b stands => stands.1) (fun _ => rfl) ?_
  refine .bind (.alterBuild (y := .between) (fun _ => trivial) (fun b stands => ?_) fun _ => rfl)
    fun _ => ?_
  · exact ⟨by simp [current?], stands.2.1⟩
  refine .bind (addName_provides _).silent.lift.forget fun _ =>
    .bind (.mapM fun t _ => addParameter_any t) fun ids => ?_
  refine .bind fresh_silent.lift.forget fun front => .bind fresh_silent.lift.forget fun code => ?_
  refine .bind (.alterBuild (y := .between) (fun _ => trivial) (fun _ stands => stands) fun _ =>
    rfl) fun _ => ?_
  refine .bind (openBlock_any front) fun _ => .bind selectNone_any fun _ => ?_
  exact .bind (beginBlock_acts code).forget fun _ => .pure

theorem selectFound_any (label : Ident) : Acting .between .opened .any (do
    selectBlock (some (← blockPosition label)) : Build Unit) := by
  have found : ∀ {b b1 : Builder} {k : Nat}, b.Stands .between → Ends (blockPosition label) b k b1 →
      b1 = b ∧ Ends (selectBlock (some k)) b () { b with block := some k } ∧
        Stands { b with block := some k } .opened := by
    intro b b1 k stands ends
    obtain ⟨rfl, f, last, position⟩ := ends_blockPosition ends
    have below : k < f.blocks.length := by
      simpa [Function.labels] using (List.findIdx?_eq_some_iff_findIdx_eq.1 position).1
    refine ⟨rfl, selectBlock_ends stands.inFunction (by simpa [blockCount, last] using below), ?_⟩
    simpa [Stands, here?, current?, stands.inFunction, last] using below
  refine ⟨fun _ _ _ _ => trivial, fun b u b' stands ends => ?_, fun b e stands fails => ?_, ?_⟩
  · obtain ⟨k, b1, finds, selects⟩ := ends_bind ends
    obtain ⟨rfl, selects', stands'⟩ := found stands finds
    cases selects.symm.trans selects'
    exact stands'
  · obtain fails | ⟨k, b1, finds, t, failed⟩ := Steps.fails_bind fails
    · exact (blockPosition_any label).fails b e stands fails
    · obtain ⟨rfl, selects, -⟩ := found stands finds
      cases failed.symm.trans selects
  · exact .bind (blockPosition_any (w := .between) label).blind fun k => selectBlock_blind _

theorem endFunction_any : Acting .between .outside .any endFunction := by
  have last : Acting .between .outside .any (do
      if !(← get).inFunction then throw (.building .mismatchedFunctionEnd)
      modifyFunction fun f => { f with ended := true }
      modify fun b => { b with
        toCursor := b.toCursor.leave, inFunction := false, variablesBlock := none
        codeBlock := none } : Build Unit) := by
    refine acts_ensure (c := fun b => !b.inFunction) (fun b stands => ?_) (fun _ => rfl) ?_
    · simp [stands.inFunction]
    · refine .bind (modifyFunction_any _) fun _ => ?_
      exact .alterBuild (fun _ => trivial) (fun b stands => ⟨rfl, stands.2, rfl⟩) fun _ => rfl
  refine .lookBuild (fun _ => rfl) fun b => ?_
  split
  · rename_i front code _ _
    have leads : ∀ c : Build Unit, Acting .between .outside .any c →
        Acting .between .outside .any (do
          selectBlock (some (← blockPosition front))
          endBlock { op := .branch, operands := [.ref code] }
          c) := fun c rest => by
      rw [← bind_assoc]
      exact .bind (selectFound_any front) fun _ => .bind (endBlock_any _) fun _ => rest
    exact leads _ last
  · exact last

end Builder

end ShaderGen
