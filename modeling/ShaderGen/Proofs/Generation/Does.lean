import ShaderGen.Proofs.Generation.Steps

/-!
# What code generation does

Building steps are elementary (`Builder.Building`), steps that call nothing are `Quiet`, and a step
that may call functions is `Calling` them in order.
-/

namespace ShaderGen

open Steps (Ends)

variable {w : Stance} {o : Opcode} {before : List Fact} {m : Type → Type}

namespace Does

variable {α β : Type} {before : List Fact} {after : α → List Fact}

theorem up [Monad m] [MonadLiftT m Codegen] [Steps m Builder]
    [Embeds m Codegen State] {p : Program} {c : m α} (h : Does Builder.Building before c after w) :
    Does (Quiet p) before (liftM c : Codegen α) after w :=
    ⟨h.runs.up, Codegen.build_callFree h.acts⟩

theorem lift {E : Effect Builder} [Content E] {c : Emit α} (h : Does E before c after) :
    Does E before (liftM c : Build α) after := ⟨h.runs.up, .up (fun _ _ step => step) h.acts⟩

end Does

/-! ## Steps that may call functions -/

instance absorbsQuiet {p : Program} {whole : Prop} {calls : List FunctionId} :
    Absorbs (Calling p whole calls) (Quiet p) where
  absorb first rest := Calling.trans ⟨[], List.nil_sublist _, first, fun _ _ _ => rfl⟩ rest
  early wants := absurd wants id
  late first wants := ⟨wants.1, first.frames.signatures ▸ wants.2⟩

namespace Does

variable {α β : Type} {p : Program} {whole : Prop} {calls others : List FunctionId}
  {before before' : List Fact} {after : α → List Fact}

theorem quiet {c : Codegen α} (h : Does (Quiet p) before c after) :
    Does (Calling p whole []) before c after := ⟨h.runs, CallsFrom.quiet h.acts⟩

/-- A step that leaves calls out where no whole step does so. -/
theorem skip {c : Codegen α} (h : Does (Quiet p) before c after)
    (nothing : whole → calls = []) : Does (Calling p whole calls) before c after :=
  ⟨h.runs, CallsFrom.leave h.acts fun complete _ _ _ _ _ => nothing complete⟩

theorem widen {c : Codegen α} (h : Does (Calling p whole calls) before c after)
    (sublist : calls.Sublist others) (same : whole → calls = others) :
    Does (Calling p whole others) before c after := ⟨h.runs, CallsFrom.widen h.acts sublist same⟩

theorem both {x : Codegen α} {f : α → Codegen β} {out : β → List Fact}
    (hx : Does (Calling p whole calls) before' x after) [h : Entails before before']
    (hf : ∀ a, Does (Calling p whole others) (after a ++ before) (f a) out) :
    Does (Calling p whole (calls ++ others)) before (x >>= f) out :=
  ⟨.bind hx.runs fun a => (hf a).runs, CallsFrom.bind hx.acts fun a => (hf a).acts⟩

theorem ahead {x : Codegen α} {f : α → Codegen β} {out : β → List Fact}
    (hx : Does (Calling p whole calls) before' x after) [h : Entails before before']
    (hf : ∀ a, Does (Quiet p) (after a ++ before) (f a) out) :
    Does (Calling p whole calls) before (x >>= f) out :=
  ⟨.bind hx.runs fun a => (hf a).runs, CallsFrom.before hx.acts fun a => (hf a).acts⟩

theorem forCalls {order : α → List FunctionId} {list : List α} {f : α → Codegen PUnit}
    (h : ∀ a ∈ list, Does (Calling p whole (order a)) before (f a) fun _ => []) :
    Does (Calling p whole (list.flatMap order)) before (list.forM f) fun _ => [] :=
  ⟨.forM fun a mem => (h a mem).runs, CallsFrom.forM fun a mem => (h a mem).acts⟩

theorem mapCalls {order : α → List FunctionId} {list : List α} {f : α → Codegen β}
    (out : β → List Fact) (h : ∀ a ∈ list, Does (Calling p whole (order a)) before (f a) out) :
    Does (Calling p whole (list.flatMap order)) before (list.mapM f) fun rs => rs.flatMap out :=
  ⟨.mapM out fun a mem => (h a mem).runs, CallsFrom.mapM fun a mem => (h a mem).acts⟩

theorem mapFactCalls {order : α → List FunctionId} {list : List α} {f : α → Codegen β}
    (fact : β → Fact)
    (h : ∀ a ∈ list, Does (Calling p whole (order a)) before (f a) fun r => [fact r]) :
    Does (Calling p whole (list.flatMap order)) before (list.mapM f) fun rs => rs.map fact :=
  ⟨.mapFact fact fun a mem => (h a mem).runs, CallsFrom.mapM fun a mem => (h a mem).acts⟩

theorem foldCalls {order : α → List FunctionId} {list : List α} {f : β → α → Codegen β} {init : β}
    {out : β → List Fact}
    (h : ∀ acc, ∀ a ∈ list, Does (Calling p whole (order a)) (out acc ++ before) (f acc a) out)
    [Entails before (out init)] :
    Does (Calling p whole (list.flatMap order)) before (list.foldlM f init) out :=
  ⟨.foldlM fun acc a mem => (h acc a mem).runs,
    CallsFrom.foldlM fun acc a mem => (h acc a mem).acts⟩

end Does

/-! ## Building steps -/

/-- Instructions that neither lead anywhere nor call anything. -/
def Opcode.isPlain : Opcode → Bool
  | .functionCall => false
  | o => !o.isControl

theorem Opcode.isControl_of_isPlain (h : o.isPlain) : o.isControl = false := by
  unfold isPlain at h
  split at h
  · cases h
  · simpa using h

theorem Opcode.noCall_of_isPlain (h : o.isPlain) : o ≠ .functionCall := by
  rintro rfl
  cases h

/-- Instructions that only compute a value, or read memory. -/
def Opcode.isInert : Opcode → Bool
  | .functionCall | .store | .copyMemory | .imageTexelPointer | .image | .sampledImage
  | .imageSampleImplicitLod | .imageSampleExplicitLod | .imageSampleDrefImplicitLod
  | .imageSampleDrefExplicitLod | .imageFetch | .imageGather | .imageDrefGather | .imageRead
  | .imageWrite | .imageQuerySizeLod | .imageQuerySize | .imageQueryLevels | .atomicLoad
  | .atomicStore | .atomicExchange | .atomicCompareExchange | .atomicIAdd | .atomicSMin
  | .atomicUMin | .atomicSMax | .atomicUMax | .atomicAnd | .atomicOr | .atomicXor
  | .controlBarrier | .memoryBarrier | .emitVertex | .endPrimitive | .setMeshOutputsEXT
  | .traceRayKHR | .executeCallableKHR | .rayQueryInitializeKHR | .rayQueryTerminateKHR
  | .rayQueryProceedKHR | .reportIntersectionKHR | .demoteToHelperInvocation | .extInst
  | .var => false
  | o => !o.isControl

theorem Opcode.isPlain_of_isInert (h : o.isInert) : o.isPlain := by
  cases o <;> first | rfl | cases h

namespace Builder

/-- One step of computing: something is declared at module scope, or an instruction that only
computes a value goes to the block that takes instructions. -/
inductive Computing : Builder → Builder → Prop
  | declare {b b' : Builder} (step : b.Elementary b') (code : b.SameCode b') : Computing b b'
  | append {b b' : Builder} {i : Instruction} {u : Unit} (inert : i.op.isInert)
      (ends : Ends (append i) b u b') : Computing b b'

/-- Values may be computed. -/
class Computes (E : Effect Builder) : Prop extends Content E where
  step : ∀ {b b' : Builder}, b.Computing b' → E.leads b b'

instance : Computes Building where
  step step := by
    cases step with
    | declare step => exact .single step
    | append inert ends =>
      exact .single (.append (Opcode.noCall_of_isPlain (Opcode.isPlain_of_isInert inert)) ends)

/-- Values have been computed. -/
abbrev Computed : Builder → Builder → Prop := Relation.ReflTransGen Computing

/-- What steps do that only compute values. -/
def Calculating : Effect Builder := .only Computed

instance : Computes Calculating where
  refl _ := .refl
  trans := .trans
  wants := id
  step := .single

variable (op : Opcode)

section Computing

variable {E : Effect Builder} [Computes E] {α : Type}

theorem elementary_acts {c : Emit α} (h : Silent w c)
    (step : ∀ b a b', Ends c b a b' → b.Elementary b') : Acting w w E c :=
  h.retell fun b a b' ends => Computes.step (.declare (step b a b' ends) (h.leads b a b' ends))

theorem elementary_does {after : α → List Fact} {c : Emit α}
    (h : Provides w before c after) (step : ∀ b a b', Ends c b a b' → b.Elementary b') :
    Does E before c after w := ⟨Does.runs h, elementary_acts h.silent step⟩

theorem addCapability_does (c : Capability) : Does E [] (addCapability c) fun _ => [] :=
  elementary_does (addCapability_provides c) fun _ _ _ => .addCapability

theorem useExtension_does {e : Extension} (general : e ∈ Extension.all) :
    Does E [] (useExtension e) fun _ => [] :=
  elementary_does (useExtension_provides e) fun _ _ _ => .useExtension general

theorem require_does {r : Requirements} (general : r.General) : Does E [] (require r) fun _ => [] :=
  .bind (.forM fun c _ => addCapability_does c) fun _ =>
    .last (.forM fun e mem => useExtension_does (general e mem))

theorem markNonUniform_does (id : Ident) :
    Does E [.value id] (decorate id .nonUniform) fun _ => [] :=
  elementary_does (decorate_provides id _) fun _ _ _ => .markNonUniform

theorem librarySet_does : Does E [] librarySet ([.anywhere ·]) :=
  elementary_does (importSet_provides _) fun _ _ _ => .importSet

theorem typeBool_does : Does E [] typeBool ([.shared ·]) :=
  elementary_does typeBool_provides fun _ _ _ => .typeBool

theorem typeInt_does (width : Nat) (signed : Bool) :
    Does E [] (typeInt width signed) ([.shared ·]) :=
  elementary_does (typeInt_provides width signed) fun _ _ _ => .typeInt

theorem typeWord_does : Does E [] typeWord ([.shared ·]) := typeInt_does 32 false

theorem typeFloat_does (width : Nat) : Does E [] (typeFloat width) ([.shared ·]) :=
  elementary_does (typeFloat_provides width) fun _ _ _ => .typeFloat

theorem typeVector_does (component : Ident) (count : Nat) :
    Does E [.shared component] (typeVector component count) ([.shared ·]) :=
  elementary_does (typeVector_provides component count) fun _ _ _ => .typeVector

theorem typePointer_does (storage : StorageClass) (pointee : Ident) :
    Does E [.shared pointee] (typePointer storage pointee) ([.shared ·]) w :=
  elementary_does (typePointer_provides storage pointee) fun _ _ _ => .typePointer

theorem typeStruct_does (members : List Ident) (text : String) :
    Does E (members.map .shared) (typeStruct members text) ([.shared ·]) :=
  elementary_does ((typeStruct_provides members text).last) fun _ _ _ => .typeStruct

variable (type : Ident)

theorem constBits_does (bits : Nat) :
    Does E [.shared type] (constBits type bits) ([.shared ·]) :=
  elementary_does (constBits_provides type bits) fun _ _ _ => .constBits

theorem constWord_does (value : Nat) : Does E [] (constWord value) ([.shared ·]) :=
  .bind typeWord_does fun type => (constBits_does type value).last

theorem constSigned_does (value : Int) : Does E [] (constSigned value) ([.shared ·]) :=
  .bind (typeInt_does 32 true) fun type => (constBits_does type _).last

theorem constFloat_does (bits : Nat) : Does E [] (constFloat bits) ([.shared ·]) :=
  .bind (typeFloat_does 32) fun type => (constBits_does type bits).last

theorem constFilled_does (value : Nat) :
    Does E [.shared type] (constFilled type value) ([.shared ·]) :=
  elementary_does (constFilled_provides type value) fun _ _ _ => .constFilled

theorem constComposite_does (parts : List Ident) :
    Does E (.shared type :: parts.map .shared) (constComposite type parts) ([.shared ·]) :=
  elementary_does (constComposite_provides type parts) fun _ _ _ => .constComposite

theorem constNull_does :
    Does E [.shared type] (constNull type) ([.shared ·]) :=
  elementary_does (constNull_provides type) fun _ _ _ => .constNull

theorem compute_does (type : Ident) (operands : List Operand) (inert : op.isInert) :
    Does E (.shared type :: (Operand.ids operands).map .value) (emit op type operands)
      ([.value ·]) := by
  have plain := Opcode.isControl_of_isPlain (Opcode.isPlain_of_isInert inert)
  have fresh : Acts E (liftM fresh : Build Ident) :=
    .up (fun _ _ step => step) (elementary_acts fresh_silent fun _ _ _ => .fresh)
  refine ⟨emit_runs op type operands plain, .bind fresh fun id => .bind ?_ fun _ => .pure⟩
  exact (append_any (fun _ => Stands.opened) _).retell fun _ _ _ ends =>
    Computes.step (.append inert ends)

end Computing

theorem localVariable_does (text : String) (type : Ident) :
    Does Building [.shared type] (localVariable text type) ([.fixed ·]) :=
  ⟨localVariable_runs text type, localVariable_acts text type⟩

theorem emit_does (type : Ident) (operands : List Operand) (plain : op.isPlain) :
    Does Building (.shared type :: (Operand.ids operands).map .value) (emit op type operands)
      ([.value ·]) :=
  ⟨emit_runs op type operands (Opcode.isControl_of_isPlain plain),
    emit_acts (Opcode.noCall_of_isPlain plain) type operands⟩

theorem emitVoid_does (operands : List Operand) (plain : op.isPlain) :
    Does Building ((Operand.ids operands).map .value) (emitVoid op operands) fun _ => [] :=
  ⟨emitVoid_runs op operands (Opcode.isControl_of_isPlain plain),
    emitVoid_acts (Opcode.noCall_of_isPlain plain) operands⟩

end Builder

/-! ## Steps that only compute -/

/-- Values may be computed. What is looked up for that leaves the code alone. -/
class State.Computes (p : outParam Program) (E : Effect State) : Prop extends Content E where
  note : ∀ {s t : State}, s.Elementary p t → s.builder.SameCode t.builder → E.leads s t
  computed : ∀ {s : State} {b : Builder}, s.builder.Computed b → E.leads s { s with builder := b }

instance {p : Program} : State.Computes p (Quiet p) where
  note step _ := .step (.refl _) step
  computed h := .of_builds (h.lift' id fun _ _ => Builder.Computes.step (E := Builder.Building))

section

variable {p : Program} {E : Effect State} {α : Type} [State.Computes p E]

include p in
theorem Does.compute [Monad m] [MonadLiftT m Codegen] [Steps m Builder]
    [Embeds m Codegen State] {c : m α} {after : α → List Fact}
    (h : Does Builder.Calculating before c after w) : Does E before (liftM c : Codegen α) after w :=
  ⟨h.runs.up, .up (fun _ _ => State.Computes.computed) h.acts⟩

namespace Codegen

theorem note_acts {c : Codegen α} (h : Keeps w State.Learns c)
    (step : ∀ s a t, Ends c s a t → s.Elementary p t) : Acting w w E c :=
  h.retell fun s a t ends => State.Computes.note (step s a t ends) (h.leads s a t ends).code

theorem typer_acts (r : TypeRequest) : Acting w w E (typer p r) :=
  note_acts (typer_learns p r).acts fun _ _ _ => .type

theorem constant_acts (value : ConstantValue) (t : ShaderType) :
    Acting w w E (constant p (typer p) value t) :=
  note_acts (constant_learns (typer_learns p) value t).acts fun _ _ _ => .constant

theorem followReference_acts (id : StructId) : Acting w w E (followReference p (typer p) id) :=
  note_acts (followReference_learns p id) fun _ _ _ => .follow

end Codegen

end

end ShaderGen
