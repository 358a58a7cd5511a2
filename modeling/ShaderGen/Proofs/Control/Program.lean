import ShaderGen.Proofs.Control.Outline
import ShaderGen.Proofs.Scope.EntryPoint
import ShaderGen.Proofs.Scope.Frame

/-!
# The bodies of functions

All functions of a module are laid out alike: a block in front holds the variables and leads to the
code, which is a piece that leaves for no label outside of it, and a last instruction. `Body` is
this data, and `Builder.Laid` says that the functions of a module are the given bodies. It holds of
every module that code generation makes (`laid_of_whole`).
-/

namespace ShaderGen

open List
open Steps (Ends ends_bind ends_then ends_pure)

variable {front : Block} {f : FunctionId} {bodies : List Body} {ids : List Ident} {s t : State}
  {u : Unit} {o : Options} {v : Version}

/-! ## Bodies -/

theorem exists_ok_of_any {ε α : Type} {e : Except ε α} {q : α → Bool} (h : e.toOption.any q) :
    ∃ a, e = .ok a ∧ q a := by
  cases e with
  | error e => cases h
  | ok a => exact ⟨a, rfl, h⟩

/-- What the blocks of a function are made of. -/
structure Body where
  /-- The label of the block of variables. -/
  front : Ident
  vars : List Instruction
  /-- The label of the first block of the code. -/
  code : Ident
  piece : Piece
  /-- The instruction that ends the last block. -/
  last : Instruction
  /-- The blocks of earlier functions that count as unreachable. -/
  earlier : List Ident

namespace Body

/-- The code before its last instruction. -/
def draft (b : Body) : Draft :=
  b.piece.emit { blocks := [], dead := b.earlier, label := b.code, body := [], live := true }

def blocks (b : Body) : List Block :=
  { label := b.front, body := b.vars ++ [.goto b.code] } :: (b.draft.close [b.last]).blocks

def labels (b : Body) : List Ident := b.front :: b.code :: b.piece.labels

/-- The blocks that count as unreachable when they are begun. -/
def dead (b : Body) : List Ident := b.piece.dead true

/-- A body whose last block ends as is fit for a place that can be reached, or cannot. -/
structure Valid (b : Body) : Prop where
  vars : ∀ i ∈ b.vars, i.IsLocal
  piece : b.piece.Valid []
  last : if b.piece.after true then b.last.op.isFinal else b.last = .nowhere

/-- The outline of a body. -/
def outline (b : Body) : List Junction :=
  ⟨b.front, [.goto b.code]⟩ ::
    (b.piece.outline b.code true ++ [⟨b.piece.last b.code, [b.last]⟩])

theorem Valid.labels_outline {b : Body} (h : b.Valid) :
    b.outline.map Junction.label = b.labels := by
  simpa [outline, labels] using Piece.labels_outline h.piece b.code true

end Body

/-- The functions of the module are the given bodies, whose labels all differ. -/
structure Builder.Laid (b : Builder) (bodies : List Body) : Prop where
  outside : b.inFunction = false
  functions : b.output.functions.map Function.blocks = bodies.map Body.blocks
  valid : ∀ body ∈ bodies, body.Valid
  dead : b.deadBlocks = bodies.flatMap Body.dead
  labels : Spread 0 b.output.bound (bodies.flatMap Body.labels)

/-- Between functions, no construct is around the current place. -/
structure State.Laid (s : State) (v : Version) (bodies : List Body) : Prop where
  version : s.builder.output.version = v
  builder : s.builder.Laid bodies
  scopes : s.scopes = []

/-! ## Outside of functions -/

section Spares

variable {α β : Type} {before : List Fact}

/-- Between functions, they are left alone. -/
def State.Spares (s t : State) : Prop := s.builder.inFunction = false →
  t.builder.output.functions = s.builder.output.functions ∧ t.builder.place = s.builder.place ∧
    s.builder.output.bound ≤ t.builder.output.bound ∧ t.scopes = s.scopes

instance : IsPreorder State State.Spares where
  refl _ _ := ⟨rfl, rfl, Nat.le_refl _, rfl⟩
  trans s t u first second outside := by
    obtain ⟨functions, place, bound, scopes⟩ := first outside
    obtain ⟨functions', place', bound', scopes'⟩ :=
      second ((congrArg Builder.Place.inFunction place).trans outside)
    exact ⟨functions'.trans functions, place'.trans place, Nat.le_trans bound bound',
      scopes'.trans scopes⟩

instance : IsPreorder State State.Same where
  refl := .refl
  trans _ _ _ := .trans

/-- What can be done outside of a body leaves the constructs wherever it is done. -/
theorem Runs.relates_same {c : Codegen α} {after : α → List Fact}
    (h : Runs before c after) (noBody : ∀ φ ∈ before, ∀ p xs, φ ≠ .body p xs) :
    Relates State.Same c := by
  intro s a t ends
  obtain ⟨l, -, -, same, -⟩ := h (.lax False) s a t (fun hs => hs.elim)
    (Fact.allHold_lax False noBody) ends
  exact same

theorem Runs.spares {c : Codegen α} {after : α → List Fact}
    (h : Runs before c after) (noBody : ∀ φ ∈ before, ∀ p xs, φ ≠ .body p xs) :
    Relates State.Spares c := by
  intro s a t ends outside
  have same := h.relates_same noBody s a t ends
  obtain ⟨functions, place⟩ := same.emits.outside outside
  exact ⟨functions, place, same.emits.bound, same.scopes⟩

theorem Runs.emits {c : Emit α} {after : α → List Fact}
    (h : Runs before c after) {b b' : Builder} {a : α} (ends : Ends (liftM c : Build α) b a b')
    (noBody : ∀ φ ∈ before, ∀ p xs, φ ≠ .body p xs) : b.Emits [] b' := by
  obtain ⟨l, -, -, same, -⟩ := h.up (m := Emit) (n := Build) (.lax False) b a b'
    (fun hs => hs.elim) (Fact.allHold_lax False noBody) ends
  exact Builder.Same.emits same

theorem State.Laid.move (h : s.Laid v bodies)
    (functions : t.builder.output.functions = s.builder.output.functions)
    (place : t.builder.place = s.builder.place)
    (bound : s.builder.output.bound ≤ t.builder.output.bound) (scopes : t.scopes = s.scopes) :
    t.Laid v bodies :=
  ⟨(congrArg Builder.Place.version place).trans h.version,
    ⟨(congrArg Builder.Place.inFunction place).trans h.builder.outside,
    functions ▸ h.builder.functions, h.builder.valid,
    (congrArg Builder.Place.deadBlocks place).trans h.builder.dead,
    h.builder.labels.mono (Nat.le_refl _) bound⟩, scopes.trans h.scopes⟩

theorem State.Laid.spare (h : s.Laid v bodies) {c : Codegen α} (hc : Relates State.Spares c) {a : α}
    (ends : Ends c s a t) : t.Laid v bodies := by
  obtain ⟨functions, place, bound, scopes⟩ := hc s a t ends h.builder.outside
  exact h.move functions place bound scopes

end Spares

namespace Codegen

theorem declareFunction_spares (p : Program) (f : FunctionId) :
    Relates State.Spares (declareFunction p f) := by
  refine .bind ((function_does f : Learning .outside _ _ _).runs.spares (by simp))
    fun definition => ?_
  refine .bind ((valueType_learns p _).runs.spares (by simp)) fun returnType => ?_
  refine .bind
    (.mapM fun x _ => .bind ((symbol_does x : Learning .outside _ _ _).runs.spares (by simp))
    fun d =>
    (parameterType_does (w := .outside) p d.type).runs.spares (by simp)) fun parameters => ?_
  refine .bind (fun s x t ends _ => ?_) fun id => .remember fun s _ =>
    ⟨rfl, rfl, Nat.le_refl _, rfl⟩
  cases ends
  exact ⟨rfl, rfl, Nat.le_succ _, rfl⟩

end Codegen

/-! ## Beginning and ending functions -/

namespace Builder

variable {b b' : Builder} {before : List Function} {head : Function} {types : List Ident}

/-- The head of a function is being made. -/
structure Heading (b : Builder) (before : List Function) (head : Function) : Prop where
  inFunction : b.inFunction = true
  functions : b.output.functions = before ++ [head]
  empty : head.blocks = []

theorem Heading.addParameters (h : b.Heading before head)
    (ends : Ends (types.mapM addParameter) b ids b') :
    (∃ head', b'.Heading before head' ∧ head'.id = head.id) ∧ b.output.bound ≤ b'.output.bound ∧
      b'.place = b.place := by
  induction types generalizing b head ids b' with
  | nil =>
    obtain ⟨rfl, rfl⟩ := ends_pure ends
    exact ⟨⟨head, h, rfl⟩, Nat.le_refl _, rfl⟩
  | cons type types ih =>
    rw [mapM_cons] at ends
    obtain ⟨id, b1, first, rest, b2, others, ends⟩ := ends_bind₂ ends
    obtain ⟨rfl, rfl⟩ := ends_pure ends
    obtain ⟨rfl, rfl⟩ := ends_addParameter first
    have more : (b.parametrized type).Heading before
        (head.withParameter ⟨b.output.bound, type⟩) :=
      ⟨h.inFunction, by simp [parametrized, h.functions], h.empty⟩
    obtain ⟨heading, bound, place⟩ := ih more others
    exact ⟨heading, Nat.le_trans (Nat.le_succ _) bound, place⟩

theorem Heading.begin (h : b.Heading before head) (version : b.output.version = v) :
    b.entered.At (⟨before, head, b.output.bound + 1⟩ : Site v) ⟨b.output.bound, []⟩
      ⟨⟨[], b.deadBlocks⟩, b.output.bound + 1, [], true⟩ := by
  refine ⟨version, h.inFunction, ?_, ?_, rfl, rfl, rfl, rfl, rfl⟩
  · simp [entered, bothOpened, opened, placed, handOut, h.functions, h.empty, Site.functions,
      Function.withBlock, Draft.all]
  · simp [entered, bothOpened, opened, placed, handOut, blockCount, h.functions, h.empty,
      Function.withBlock]

theorem at_beginFunction {id returnType : Ident} {text : String}
    (version : b.output.version = v) (outside : b.inFunction = false)
    (ends : Ends (beginFunction id text returnType types) b ids b') :
    ∃ (head : Function) (front : Ident), head.id = id ∧ b.output.bound ≤ front ∧
      b'.At (⟨b.output.functions, head, front + 1⟩ : Site v) ⟨front, []⟩
        ⟨⟨[], b.deadBlocks⟩, front + 1, [], true⟩ ∧ b'.output.bound = front + 2 := by
  obtain ⟨type, b1, htype, ends⟩ := ends_bind ends
  have emits : b.Emits [] b1 := (typeFunction_provides returnType types).runs.emits htype (by simp)
  obtain ⟨functions1, place1⟩ := emits.outside outside
  replace ends := ends_get ends
  obtain ⟨-, ends⟩ := ends_ensure ends
  obtain ⟨_, b2, hstart, ends⟩ := ends_bind ends
  obtain rfl : b1.started id returnType type = b2 := by cases hstart; rfl
  obtain ⟨_, b3, hname, ends⟩ := ends_bind ends
  have code : (b1.started id returnType type).SameCode b3 := sameCode_of_ends_name hname
  have bound : b1.output.bound ≤ b3.output.bound :=
    ((name_provides id text).runs.emits hname (by simp)).bound
  have heading : b3.Heading b.output.functions { id, returnType, type } :=
    ⟨code.inFunction, by rw [code.functions, ← functions1]; rfl, rfl⟩
  obtain ⟨ids', b4, ⟨⟨head, heading', named⟩, bound', place⟩, ends⟩ :=
    ends_then heading.addParameters ends
  have place' : b4.place = { b.place with inFunction := true } := by
    rw [place, code.place, ← place1]
    rfl
  have version' : b4.output.version = v := (congrArg Place.version place').trans version
  have dead : b4.deadBlocks = b.deadBlocks := congrArg Place.deadBlocks place'
  have current : b4.current? = some head := by simp [current?, heading'.inFunction,
    heading'.functions]
  obtain ⟨rfl, rfl⟩ := ends_firstBlocks current ends
  exact ⟨head, b4.output.bound, named, Nat.le_trans emits.bound (Nat.le_trans bound bound'),
    dead ▸ heading'.begin version', rfl⟩

theorem Between.endFunction {site : Site v} {w : Written} (h : b.Between site front w)
    (ends : Ends endFunction b u b') : b'.output.functions = site.before ++ [{ site.head with
        blocks := front.append [.goto site.code] :: w.blocks, ended := true }] ∧
      b'.inFunction = false ∧ b'.deadBlocks = w.dead ∧ b'.output.bound = b.output.bound ∧
      b'.output.version = v := by
  replace ends := ends_get ends
  rw [h.variablesBlock, h.codeBlock] at ends
  obtain ⟨k, b1, ⟨rfl, f, hf, found⟩, ends⟩ := ends_then ends_blockPosition ends
  obtain rfl : { site.head with blocks := front :: w.blocks } = f := by
    simpa [h.functions, Site.functions] using hf
  obtain rfl : 0 = k := by simpa [Function.labels, findIdx?_cons] using found
  obtain ⟨_, b2, ⟨rfl, -⟩, ends⟩ := ends_then ends_selectBlock ends
  obtain ⟨_, b3, ⟨k, hk, rfl⟩, ends⟩ := ends_then ends_endBlock ends
  cases hk
  replace ends := ends_get ends
  obtain ⟨-, ends⟩ := ends_ensure ends
  cases ends
  refine ⟨?_, rfl, h.deadBlocks, rfl, h.version⟩
  simp [halted, pushed, h.functions, Site.functions, Function.pushTo, Block.push, Block.append,
    Instruction.goto]

end Builder

/-! ## Whole functions -/

/-- The instruction that ends a body that control can run off the end of. -/
def FunctionDecl.ending (f : FunctionDecl) : Opcode :=
  if f.returnType.isVoid then .ret else .returnValue

theorem FunctionDecl.isFinal_ending (f : FunctionDecl) : f.ending.isFinal := by
  unfold ending
  split <;> rfl

namespace Codegen

variable {p : Program} {v : Version} {Q : List JumpScope → Node → Piece → Prop} {d : Draft}
  {definition : FunctionDecl} {low type : Ident} {scopes : List JumpScope}

theorem modify_writes (g : State → State) (h : ∀ s, (g s).builder = s.builder ∧
    (g s).scopes = s.scopes) : Writes v (MonadStateOf.modifyGet fun s => (PUnit.unit, g s))
      fun _ _ piece => piece = .plain [] := by
  intro s u t site front d scopes low opens ends
  cases ends
  obtain ⟨builder, scopes'⟩ := h s
  refine ⟨[], .plain [], low, rfl, ⟨?_, scopes'.trans opens.scopes, ?_⟩, .nothing scopes low⟩
  · rw [builder, Block.append_nil, Piece.emit, Draft.push, append_nil]
    exact opens.at_
  · rw [builder]
    exact opens.bound

theorem runInitializers_writes
    (h : ∀ n ∈ p.prelude f, Writes v (statement p n) fun scopes _ => Q scopes n) :
    Writes v (runInitializers p f) fun scopes _ piece =>
      ∃ pieces, List.Forall₂ (Q scopes) (p.prelude f) pieces ∧ piece = .all pieces := by
  unfold runInitializers Program.prelude at *
  split
  · rename_i entry
    rw [if_pos entry] at h
    exact Writes.forM h
  · exact Writes.pure.mono fun _ _ _ h => ⟨[], .nil, h.2⟩

/-- What the code of a function is made of: what it starts with, and its statements. Binding the
parameters takes no code. -/
def FunctionPiece (Q : Node → Piece → Prop) (before body : List Node) (piece : Piece) : Prop :=
  ∃ first pieces, List.Forall₂ Q before first ∧ List.Forall₂ Q body pieces ∧
    piece = .seq (.plain []) (.seq (.all first) (.seq (.plain []) (.seq (.all pieces) (.plain []))))

/-- A step that is silent writes nothing where it stands. -/
theorem silent_writes {α : Type} {c : Codegen α} (keeps : Relates State.Same c)
    (silent : Relates World.SameCode c) : Writes v c fun _ _ piece => piece = .plain [] := by
  intro s a t site front d scopes low opens ends
  have same : s.Same t := keeps s a t ends
  have code : s.builder.SameCode t.builder := silent s a t ends
  have le : low ≤ t.builder.output.bound := opens.bound ▸ same.emits.bound
  refine ⟨[], .plain [], t.builder.output.bound, rfl, ⟨?_, same.scopes.trans opens.scopes, rfl⟩,
    le, by simp, by simp [Piece.Valid], .nil⟩
  rw [Block.append_nil, Piece.emit, Draft.push, append_nil]
  exact opens.at_.same code.functions code.place

theorem functionCode_writes
    {parameters : List ((SymbolId × Ident) × Passing)} (own : ∀ q ∈ parameters, p.IsPrivate q.1.1)
    (hi : ∀ n ∈ p.prelude f, Writes v (statement p n) fun scopes _ => Q scopes n)
    (hb : ∀ n ∈ definition.body, Writes v (statement p n) fun scopes _ => Q scopes n) :
    Writes v (functionCode p f definition parameters) fun scopes _ =>
      FunctionPiece (Q scopes) (p.prelude f) definition.body := by
  have binds : Writes v (parameters.forM fun q => bindParameter p q.1.1 q.1.2 q.2)
      fun _ _ piece => piece = .plain [] :=
    silent_writes (.forM fun q hq => (bindParameter_runs (own q hq) q.1.2 q.2).relates_same
    (by simp))
      (.forM fun q _ s a t ends =>
        ((bindParameter_learns p _ _ _ : Keeps .inside _ _).leads s a t ends).code)
  refine (Writes.bind binds fun _ => .bind (runInitializers_writes hi) fun _ =>
    .bind (modify_writes (fun s => { s with returnType := some definition.returnType })
      fun s => ⟨rfl, rfl⟩) fun _ => .bind (Writes.forM hb) fun _ =>
    modify_writes (fun s => { s with returnType := none }) fun s => ⟨rfl, rfl⟩).mono ?_
  rintro scopes _ piece ⟨_, _, _, rfl, ⟨_, _, _, ⟨first, hfirst, rfl⟩, ⟨_, _, _, rfl, ⟨_, _, _,
    ⟨pieces, hpieces, rfl⟩, rfl, rfl⟩, rfl⟩, rfl⟩, rfl⟩
  exact ⟨first, pieces, hfirst, hpieces, rfl⟩

theorem constNull_ends {site : Site v} {null : Ident} (opens : s.Opens site front d scopes low)
    (ends : Ends (liftM (Builder.constNull type) : Codegen Ident) s null t) :
    ∃ high, t.Opens site front d scopes high ∧ low ≤ high := by
  obtain ⟨b, inner, rfl⟩ := ends_lift Emit ends
  replace inner := ends_get inner
  split at inner
  · cases inner
    exact ⟨low, opens, Nat.le_refl _⟩
  · cases inner
    exact ⟨low + 1, ⟨opens.at_.same rfl rfl, opens.scopes, congrArg (· + 1) opens.bound⟩,
      Nat.le_succ low⟩

theorem closeBody_ends {site : Site v}
    (opens : s.Opens site front d scopes low) (ends : Ends (closeBody definition type) s u t) :
    ∃ last high, t.Pauses site front (d.close [last]) scopes high ∧ low ≤ high ∧
      if d.live then last.op = definition.ending else last = .nowhere := by
  obtain ⟨live, s1, ⟨rfl, opens⟩, ends⟩ := ends_then opens.isLive ends
  cases live : d.live with
  | false =>
    rw [live] at ends
    exact ⟨.nowhere, low, opens.endWith ends, Nat.le_refl _, by simp⟩
  | true =>
    rw [live] at ends
    simp only [Bool.not_true, Bool.false_eq_true, if_false] at ends
    split at ends
    · rename_i void
      exact ⟨_, low, opens.endWith ends, Nat.le_refl _, by simp [FunctionDecl.ending, void]⟩
    · rename_i value
      obtain ⟨null, s2, ⟨high, opens, le⟩, ends⟩ := ends_then (constNull_ends opens) ends
      exact ⟨_, high, opens.endWith ends, le, by simp [FunctionDecl.ending, value]⟩

theorem defineFunction_ends (h : ∀ n, Writes v (statement p n) fun scopes _ => Q scopes n)
    (laid : s.Laid v bodies) (ends : Ends (defineFunction p f) s u t) :
    ∃ body definition, p.function? f = some definition ∧ t.Laid v (bodies ++ [body]) ∧
      FunctionPiece (Q []) (p.prelude f) definition.body body.piece ∧
      (body.piece.after true = true → body.last.op = definition.ending) := by
  obtain ⟨definition, s1, hdefinition, ends1⟩ := ends_bind ends
  obtain ⟨found, rfl⟩ : p.function? f = some definition ∧ s1 = s := by
    unfold Program.function at hdefinition
    split at hdefinition
    · cases hdefinition
      exact ⟨‹_›, rfl⟩
    · cases hdefinition
  obtain ⟨signature, s2, laid2, ends2⟩ :=
    ends_then (laid.spare ((signature_runs f).spares (by simp))) ends1
  obtain ⟨ids, s3, ⟨b, inner, rfl⟩, ends3⟩ := ends_then (ends_lift Build) ends2
  obtain ⟨head, first, -, le, at_, bound⟩ := Builder.at_beginFunction laid2.version
    laid2.builder.outside inner
  obtain ⟨_, s4, codes, _, s5, closes, ends5⟩ := ends_bind₂ ends3
  have own : ∀ q ∈ (definition.parameters.zip ids).zip signature.passing, p.IsPrivate q.1.1 :=
    fun q hq => .inr ⟨definition, mem_of_getElem? found, (of_mem_zip (of_mem_zip hq).1).1⟩
  have begun : State.Opens { s2 with builder := b } _ _ _ [] (first + 2) :=
    ⟨at_, laid2.scopes, bound⟩
  obtain ⟨vars, piece, mid, holds, opens, added⟩ := functionCode_writes own (fun n _ => h n)
    (fun n _ => h n) _ _ s4 _ _ _ _ _ begun codes
  obtain ⟨last, high, paused, le', ending⟩ := closeBody_ends opens closes
  obtain ⟨b', inner', rfl⟩ := ends_lift Build ends5
  obtain ⟨functions, outside, dead, bound', version⟩ := paused.between.endFunction inner'
  let body : Body := ⟨first, vars, first + 1, piece, last, s2.builder.deadBlocks⟩
  have labels : Spread first high body.labels := by
    have own := (Spread.range first 2).append added.spread (Nat.le_add_right _ _) added.le
    exact own.mono (Nat.le_refl _) le'
  have valid : body.Valid := by
    refine ⟨added.locals, added.valid, ?_⟩
    rw [piece.live_emit] at ending
    split at ending
    · rename_i live
      exact (if_pos live).mpr (ending ▸ definition.isFinal_ending)
    · rename_i dead
      exact (if_neg dead).mpr ending
  have returns : piece.after true = true → last.op = definition.ending := by
    intro live
    rw [piece.live_emit] at ending
    simpa [live] using ending
  refine ⟨body, definition, found, ⟨version, ⟨outside, ?_, ?_, ?_, ?_⟩, paused.scopes⟩, holds,
    returns⟩
  · change b'.output.functions.map Function.blocks = _
    rw [functions, map_append, laid2.builder.functions, map_append]
    rfl
  · intro other hother
    rcases mem_append.1 hother with old | new
    · exact laid2.builder.valid other old
    · exact mem_singleton.1 new ▸ valid
  · change b'.deadBlocks = _
    rw [dead, Draft.dead_close, Piece.dead_emit.1, laid2.builder.dead, flatMap_append,
      flatMap_singleton]
    rfl
  · rw [flatMap_append, flatMap_singleton]
    have high' : b'.output.bound = high := bound'.trans paused.bound
    exact (laid2.builder.labels.mono (Nat.le_refl _) le).append (high' ▸ labels) (Nat.zero_le _)
      (Nat.le_trans (Nat.le_add_right _ 2) (Nat.le_trans added.le (high' ▸ le')))

/-- What the functions of a module are made of. -/
def ProgramPieces (p : Program) (Q : Node → Piece → Prop) (functions : List FunctionId)
    (bodies : List Body) : Prop :=
  List.Forall₂ (fun f body => ∃ definition, p.function? f = some definition ∧
    FunctionPiece Q (p.prelude f) definition.body body.piece ∧
    (body.piece.after true = true → body.last.op = definition.ending)) functions bodies

theorem defineFunctions_ends {before : List Body} {functions : List FunctionId}
    (h : ∀ n, Writes v (statement p n) fun scopes _ => Q scopes n) (laid : s.Laid v before)
    (ends : Ends (functions.forM (defineFunction p)) s u t) :
    ∃ bodies, t.Laid v (before ++ bodies) ∧ ProgramPieces p (Q []) functions bodies := by
  induction functions generalizing s before with
  | nil =>
    cases ends
    exact ⟨[], by simpa using laid, .nil⟩
  | cons f functions ih =>
    obtain ⟨_, s1, ⟨body, definition, found, laid1, holds⟩, rest⟩ :=
      ends_then (defineFunction_ends h laid) ends
    obtain ⟨bodies, laid2, all⟩ := ih laid1 rest
    exact ⟨body :: bodies, by simpa using laid2, .cons ⟨definition, found, holds⟩ all⟩

theorem laid_of_whole (h : ∀ n, Writes v (statement p n) fun scopes _ => Q scopes n)
    (laid : s.Laid v []) (ends : Ends (whole p o) s u t) :
    ∃ bodies, t.Laid v bodies ∧ ProgramPieces p (Q []) (p.emitted o) bodies := by
  obtain ⟨_, s2, prepares, ends2⟩ := ends_whole ends
  have laid2 := laid.spare ((preparation_runs p o).spares (by simp)) prepares
  obtain ⟨_, s3, declares, ends3⟩ := ends_bind ends2
  have laid3 := laid2.spare (.forM fun f _ => declareFunction_spares p f) declares
  obtain ⟨_, s4, binds, ends4⟩ := ends_bind ends3
  have laid4 := laid3.spare (.forM fun x _ =>
    .bind ((bindingOf_runs (typer_learns p) x).spares (by simp)) fun _ => .pure) binds
  obtain ⟨_, s5, ⟨bodies, laid5, pieces⟩, ends5⟩ := ends_then (defineFunctions_ends h laid4) ends4
  obtain ⟨_, s6, laid6, completes⟩ :=
    ends_then (laid5.spare ((addEntryPoint_runs p _).spares (by simp))) ends5
  refine ⟨bodies, ?_, pieces⟩
  obtain ⟨l, -, -, same, -⟩ := completeReferences_leads (l := .lax False) (fun hs => hs.elim)
    (fun hs => hs.elim) completes
  obtain ⟨functions, place⟩ := same.emits.outside laid6.builder.outside
  exact laid6.move functions place same.emits.bound same.scopes

end Codegen

/-! ## Whole modules -/

namespace Builder

theorem sameCode_start (target : Target) (o : Options) :
    (blank target o).SameCode (start target o) :=
  (setup_provides (w := .outside) target).acts.leads _ () _ (ends_setup target o)

theorem laid_start (target : Target) (o : Options) : (start target o).Laid [] := by
  have same := sameCode_start target o
  exact ⟨same.inFunction, congrArg (map Function.blocks) same.functions, by simp,
    congrArg Place.deadBlocks same.place, .nil⟩

theorem functions_finish (b : Builder) (order : SetOrder) :
    (b.finish order).functions = b.output.functions :=
  ((require_provides (w := .outside) (b.output.narrowRequirements order)).acts.leads b () _
    rfl).functions

end Builder

/-- Code generation has ended in the given state. -/
def Program.EndsIn (p : Program) (o : Options) (s : State) : Prop :=
  Ends (Codegen.whole (p.withOptions o) o) { builder := .start (p.withOptions o).target o } () s

theorem Program.exists_endsIn {p : Program} {order : SetOrder} {out : Output}
    (h : p.generate o order = .ok out) : ∃ s, p.EndsIn o s ∧
    out.shader = s.builder.finish order := by
  unfold generate at h
  dsimp only at h
  split at h
  · rename_i u s ends
    cases h
    exact ⟨s, ends, rfl⟩
  · cases h

theorem State.laid_start (p : Program) (o : Options) :
    State.Laid { builder := .start (p.withOptions o).target o } (p.withOptions o).target.version
      [] where
  version := by
    refine (Builder.sameCode_start (p.withOptions o).target o).version.trans ?_
    cases h : o.version <;> simp [Builder.blank, Program.withOptions, h]
  builder := Builder.laid_start _ o
  scopes := rfl

theorem Program.EndsIn.laid {p : Program} {s : State} (h : p.EndsIn o s) :
    ∃ bodies, s.Laid (p.withOptions o).target.version bodies := by
  obtain ⟨bodies, laid, -⟩ := Codegen.laid_of_whole (Q := fun _ _ _ => True)
    (fun n => (Codegen.statement_does fun _ h => h).runs.writes) (State.laid_start p o) h
  exact ⟨bodies, laid⟩

end ShaderGen
