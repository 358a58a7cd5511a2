import ShaderGen.Proofs.Scope.Blocks

/-!
# Beginning and ending functions

At the border of a function, what can be used all over the module stays the same, and nothing else
does. A function starts with a ledger that promises nothing to its blocks, and what it has promised
itself is kept once it has ended.
-/

namespace ShaderGen

open List
open Steps (Ends ends_bind ends_then ends_pure)

variable {f : Function} {ids : List Ident}

/-- What crossing the border of a function keeps. -/
structure Builder.Crosses (l : Ledger) (b : Builder) (l' : Ledger) (b' : Builder) : Prop where
  strict : l'.strict = l.strict
  free : l'.free = l.free
  program : l'.program = l.program
  underway : l'.underway = l.underway
  same : l.Same l'
  declared : ∀ i ∈ b.output.globals, i ∈ b'.output.globals
  global : ∀ x, b.Global l x → b'.Global l' x
  shared : ∀ x, b.Shared l x → b'.Shared l' x
  placed : ∀ x, b.Placed l x → b'.Placed l' x
  parameters : ∀ x ∈ b.output.parameterIds, x ∈ b'.output.parameterIds

/-- The ledger of a function that uses the given symbols, when it has been begun. -/
def Ledger.start (l : Ledger) (id : Ident) (uses : SymbolId → Prop) : Ledger :=
  { l.settle id .function with
    avail := fun _ _ => False
    uses := uses
    seen := fun x => l.seen x ∨ uses x }

/-- A function with one more parameter. -/
def Function.withParameter (f : Function) (q : Parameter) : Function :=
  { f with parameters := f.parameters ++ [q] }

theorem Function.ids_withParameter (f : Function) (q : Parameter) :
    (f.withParameter q).ids.Perm (q.id :: f.ids) := by
  rw [perm_iff_count]
  intro x
  simp only [ids, withParameter, map_append, map_cons, map_nil, count_append, count_cons, count_nil]
  omega

namespace Builder

variable {l l' l'' : Ledger} {b b' b'' : Builder} {code x : Ident} {types : List Ident}
  {text : String} {u : Unit}

theorem Crosses.trans (h : b.Crosses l l' b') (g : b'.Crosses l' l'' b'') :
    b.Crosses l l'' b'' where
  strict := g.strict.trans h.strict
  free := g.free.trans h.free
  program := g.program.trans h.program
  underway := g.underway.trans h.underway
  same := h.same.trans g.same
  declared i hi := g.declared i (h.declared i hi)
  global x hx := g.global x (h.global x hx)
  shared x hx := g.shared x (h.shared x hx)
  placed x hx := g.placed x (h.placed x hx)
  parameters x hx := g.parameters x (h.parameters x hx)

theorem Follows.crosses (h : b.Follows l l' b') (hs : l.strict) (same : l.Same l') :
    b.Crosses l l' b' :=
  ⟨h.strict, h.free, h.program, h.underway, same, h.declared, h.global hs, h.shared hs, h.placed hs,
    h.parameters hs⟩

/-! ## The head of a function -/

/-- A builder in which a function has been begun. -/
def started (b : Builder) (id returnType type : Ident) : Builder :=
  { b with output.functions := b.output.functions ++ [{ id, returnType, type }], inFunction :=
  true }

section Start

variable {id returnType type : Ident} {uses : SymbolId → Prop}

theorem current?_started :
    (b.started id returnType type).current? = some { id, returnType, type } := by
  simp [current?, started]

theorem perm_started (owed : (id, Role.function) ∈ l.owed) :
    ((l.start id uses).owed.map Prod.fst ++ (b.started id returnType type).output.ids).Perm
      (l.owed.map Prod.fst ++ b.output.ids) := by
  have last : (b.started id returnType type).output.ids = b.output.ids ++ [id] := by
    simp [Module.ids, started, Function.ids]
  exact perm_settle_append owed (last ▸ perm_append_singleton id b.output.ids)

theorem placed_started (owed : (id, Role.function) ∈ l.owed) :
    (b.started id returnType type).Placed (l.start id uses) x ↔ b.Placed l x :=
  mem_append.symm.trans ((perm_started owed).mem_iff.trans mem_append)

theorem Sound.crosses_started (sound : b.Sound l) (owed : (id, Role.function) ∈ l.owed) :
    b.Crosses l (l.start id uses) (b.started id returnType type) where
  strict := rfl
  free := rfl
  program := rfl
  underway := rfl
  same := ⟨rfl, rfl, rfl, fun _ => Ledger.mem_settle_of_ne (by simp)⟩
  declared _ hi := hi
  global x hx := hx.imp_right (Ledger.mem_settle_of_ne (by simp)).2
  placed x hx := (placed_started owed).2 hx
  shared x hx := by
    rcases hx with hx | hx | hx | hx | hx | hx
    · exact .inl hx
    · exact .inr (.inl hx)
    · exact .inr (.inr (.inl ((Ledger.mem_settle_of_ne (by simp)).2 hx)))
    · by_cases same : x = id
      · exact .inr (.inr (.inr (.inr (.inl (by simp [started, same])))))
      · exact .inr (.inr (.inr (.inl ((sound.mem_settle owed).2 ⟨hx, same⟩))))
    · exact .inr (.inr (.inr (.inr (.inl (by simp [started, hx])))))
    · exact .inr (.inr (.inr (.inr (.inr hx))))
  parameters x hx := by simpa [started, Module.parameterIds] using hx

theorem Sound.started (sound : b.Sound l) (outside : b.inFunction = false) (closed : b.block = none)
    (owed : (id, Role.function) ∈ l.owed) (hr : b.Shared l returnType) (ht : b.Shared l type) :
    (b.started id returnType type).Sound (l.start id uses) := by
  have crosses : b.Crosses l (l.start id uses) (b.started id returnType type) :=
    sound.crosses_started owed
  refine ⟨⟨sound.carry crosses.shared crosses.placed ⟨rfl, rfl, rfl, rfl⟩
    (fun x hx => crosses.global x (sound.remembered x hx)) (fun x storage hx => ?_),
    (perm_started owed).nodup_iff.2 sound.distinct, ?_, ?_, ?_, ?_, ?_, ?_, ?_⟩, ?order⟩
  case order =>
    exact sound.order.mono rfl crosses.parameters (fun _ => Ledger.mem_settle_of_ne (by simp))
      fun _ _ hx => hx
  · exact (Ledger.mem_settle_of_ne (by simp)).2 (sound.announced x storage hx)
  · exact fun x hx => sound.below x ((placed_started owed).1 hx)
  · intro f hf x hx
    rcases mem_append.1 hf with hf | hf
    · exact crosses.shared x (sound.heads f hf x hx)
    · obtain rfl := mem_singleton.1 hf
      have cases : x = returnType ∨ x = type := by simpa using hx
      rcases cases with rfl | rfl
      · exact crosses.shared x hr
      · exact crosses.shared x ht
  · intro f hf
    have old : f ∈ b.finished := by
      simpa [Builder.finished, Builder.started, outside] using hf
    obtain ⟨avail, checks, asks⟩ := sound.finished f old
    exact ⟨avail, checks.mono crosses.shared (fun _ h => h) fun _ _ => rfl,
      asks.mono crosses.shared fun _ h => h⟩
  · intro f hf
    cases current?_started.symm.trans hf
    exact ⟨by simp, by simp, by simp, by simp⟩
  · exact fun f hf t x hx => hx.elim
  · intro k hk
    rw [show (b.started id returnType type).block = none from closed] at hk
    cases hk
  · intro f block hf hblock
    cases current?_started.symm.trans hf
    cases hblock

end Start

/-- A function whose head is being made. -/
structure Opening (l : Ledger) (b : Builder) (f : Function) : Prop where
  sound : b.Sound l
  closed : b.block = none
  current : b.current? = some f
  empty : f.blocks = []

/-- A builder whose last function has one more parameter. -/
def parametrized (b : Builder) (type : Ident) : Builder :=
  { b with
    output.bound := b.output.bound + 1
    output.functions := modifyLast (·.withParameter ⟨b.output.bound, type⟩) b.output.functions }

theorem ends_addParameter {type id : Ident} (h : Ends (addParameter type) b id b') :
    id = b.output.bound ∧ b' = b.parametrized type := by
  replace h := ends_get h
  obtain ⟨-, h⟩ := ends_ensure h
  cases h
  exact ⟨rfl, rfl⟩

section Parameters

variable {f : Function} {type : Ident}

theorem Opening.ids_parametrized (h : b.Opening l f) :
    (b.parametrized type).output.ids.Perm (b.output.bound :: b.output.ids) := by
  obtain ⟨-, fs, hfs⟩ := exists_functions h.current
  have own := f.ids_withParameter ⟨b.output.bound, type⟩
  rw [perm_iff_count] at own ⊢
  intro x
  have := own x
  simp only [Module.ids, hfs, flatMap_append, flatMap_singleton, parametrized,
    modifyLast_append_singleton, count_append, count_cons] at this ⊢
  omega

theorem Opening.crosses_parametrized (h : b.Opening l f) : b.Crosses l l (b.parametrized type) := by
  obtain ⟨-, fs, hfs⟩ := exists_functions h.current
  refine ⟨rfl, rfl, rfl, rfl, .refl l, fun _ => id, fun _ => id, fun x hx => ?_, fun x hx => ?_,
    fun x hx => ?_⟩
  · simpa [Shared, parametrized, hfs, Function.withParameter] using hx
  · exact hx.imp_right fun hx => h.ids_parametrized.mem_iff.2 (mem_cons_of_mem _ hx)
  · simp only [Module.parameterIds, parametrized, hfs, modifyLast_append_singleton,
      flatMap_append, mem_append, Function.withParameter, flatMap_singleton, map_append] at hx ⊢
    exact hx.imp_right .inl

theorem Opening.parametrized (h : b.Opening l f) (ht : b.Shared l type) :
    (b.parametrized type).Opening l (f.withParameter ⟨b.output.bound, type⟩) := by
  obtain ⟨inside, fs, hfs⟩ := exists_functions h.current
  have functions : (b.parametrized type).output.functions =
      fs ++ [f.withParameter ⟨b.output.bound, type⟩] := by
    simp [Builder.parametrized, hfs]
  have current : (b.parametrized type).current? = some
    (f.withParameter ⟨b.output.bound, type⟩) := by
    simp [current?, functions, show (b.parametrized type).inFunction = true from inside]
  have crosses : b.Crosses l l (b.parametrized type) := h.crosses_parametrized
  have empty : (f.withParameter ⟨b.output.bound, type⟩).blocks = [] := h.empty
  refine ⟨h.sound.replaced h.current current (dropLast_modifyLast _ _) crosses.shared
    (h.sound.carry crosses.shared crosses.placed ⟨rfl, rfl, rfl, rfl⟩ h.sound.remembered
      h.sound.announced)
    (h.sound.order.mono rfl crosses.parameters (fun _ => Iff.rfl) fun _ _ => id)
    (h.sound.distinct_cons h.ids_parametrized)
    (fun x hx => h.sound.below_cons h.ids_parametrized hx)
    (fun x hx => ?_) ⟨by simp [empty], by simp [empty], by simp [empty], by simp [empty]⟩ ?_
    (fun k hk => ?_) (by simp [empty]), h.closed, current, h.empty⟩
  · have cases : x ∈ f.returnType :: f.type :: f.parameters.map Parameter.type ∨ x = type := by
      simpa [Function.withParameter, or_assoc] using hx
    exact cases.imp_right fun (same : x = type) => same ▸ crosses.shared type ht
  · refine (h.sound.asks f h.current).mono crosses.shared fun x hx => ?_
    exact (f.ids_withParameter _).mem_iff.2 (mem_cons_of_mem _ hx)
  · rw [show (b.parametrized type).block = none from h.closed] at hk
    cases hk

theorem Opening.addParameters (hs : l.strict) (h : b.Opening l f)
    (shared : ∀ t ∈ types, b.Shared l t) (ends : Ends (types.mapM addParameter) b ids b') :
    ∃ g, b'.Opening l g ∧ b.Crosses l l b' ∧ (∀ q ∈ f.parameters, q ∈ g.parameters) ∧
      ∀ x ∈ ids, x ∈ g.parameters.map Parameter.id := by
  induction types generalizing b f ids b' with
  | nil =>
    obtain ⟨rfl, rfl⟩ := ends_pure ends
    exact ⟨f, h, (Follows.refl l _).crosses hs (.refl l), fun _ h => h, by simp⟩
  | cons type types ih =>
    rw [mapM_cons] at ends
    obtain ⟨id, b1, first, rest, b2, others, ends⟩ := ends_bind₂ ends
    obtain ⟨rfl, rfl⟩ := ends_pure ends
    obtain ⟨rfl, rfl⟩ := ends_addParameter first
    have crosses : b.Crosses l l (b.parametrized type) := h.crosses_parametrized
    obtain ⟨g, opening, crosses', kept, found⟩ :=
      ih (h.parametrized (shared type mem_cons_self))
        (fun t ht => crosses.shared t (shared t (mem_cons_of_mem type ht))) others
    refine ⟨g, opening, crosses.trans crosses', fun q hq => kept q ?_, fun x hx => ?_⟩
    · exact mem_append_left _ hq
    · rcases mem_cons.1 hx with rfl | hx
      · exact mem_map_of_mem (kept ⟨b.output.bound, type⟩ (mem_append_right _ (by simp)))
      · exact found x hx

end Parameters

/-! ## The first blocks -/

/-- A builder that knows where the variables and the code of its function start. -/
def placed (b : Builder) (front code : Ident) : Builder :=
  { b with variablesBlock := some front, codeBlock := some code }

theorem Opening.owe (h : b.Opening l f) :
    b.handOut.Opening (l.owe b.output.bound .label fun _ => False) f :=
  ⟨h.sound.owe (by simp) (fun _ => False) fun _ _ _ => False.elim, h.closed, h.current, h.empty⟩

theorem Opening.placed (h : b.Opening l f) (front code : Ident) :
    (b.placed front code).Opening l f where
  closed := h.closed
  current := h.current
  empty := h.empty
  sound :=
    { h.sound with
      order := h.sound.order.mono rfl (fun _ => id) (fun _ => Iff.rfl) fun _ _ => id
      here := fun k hk => by
        rw [show (b.placed front code).block = none from h.closed] at hk
        cases hk
      front := fun g block hg hblock => by
        cases h.current.symm.trans hg
        simp [h.empty] at hblock }

/-- The body of a function has been begun: a block takes its code, which goes on from the block that
the one in front will lead to. -/
structure Begun (l : Ledger) (b : Builder) (ids : List Ident) : Prop where
  sound : b.Sound l
  opened : b.block.isSome
  inside : b.current?.isSome
  labels : ∀ x, (x, Role.label) ∉ l.owed
  parameters : ∀ x ∈ ids, b.Fixed l x ∧ x ∈ b.output.parameterIds
  code : ∃ t, b.codeBlock = some t ∧ b.IsLabel l t ∧ t < b.output.bound ∧ ∀ x, ¬ l.avail t x

/-- A builder in which the block in front has been begun, and left for the first block of the code.
-/
def bothOpened (b : Builder) (front code : Ident) : Builder :=
  let c := b.opened front none b.toCursor
  c.opened code (some c.blockCount) (c.toCursor.enter code)

theorem Opening.bothOpened {front : Ident} (h : b.Opening l f) (hs : l.strict)
    (hf : (front, Role.label) ∈ l.owed) (hc : (code, Role.label) ∈ l.owed) (differ : code ≠ front)
    (empty : ∀ x, ¬ l.avail front x) (first : b.variablesBlock = some front) :
    (b.bothOpened front code).Sound ((l.settle front .label).settle code .label) ∧
      b.Follows l ((l.settle front .label).settle code .label) (b.bothOpened front code) ∧
      ∀ x, (x, Role.label) ∈ ((l.settle front .label).settle code .label).owed ↔
        (x, Role.label) ∈ l.owed ∧ x ≠ front ∧ x ≠ code := by
  let c := b.opened front none b.toCursor
  have sound : c.Sound (l.settle front .label) := by
    refine h.sound.opened hs h.current hf (fun k hk => by cases hk) fun _ => ⟨first, fun x hx => ?_⟩
    exact absurd hx (empty x)
  have current : c.current? = some (f.withBlock front) := current?_opened h.current
  have count : c.blockCount = 1 := by
    obtain ⟨-, fs, hfs⟩ := exists_functions h.current
    rw [blockCount_opened h.current]
    simp [blockCount, hfs, h.empty]
  have owed : (code, Role.label) ∈ (l.settle front .label).owed :=
    (h.sound.mem_settle hf).2 ⟨hc, differ⟩
  refine ⟨?_, ?_, fun x => ?_⟩
  · refine sound.opened hs current owed (fun k hk => ?_) fun none => ?_
    · cases hk
      exact ⟨rfl, count ▸ Nat.one_pos, rfl⟩
    · simp [Function.withBlock] at none
  · exact (follows_opened h.current (fun _ => hs) (fun _ => h.sound) fun _ => hf).trans
      (follows_opened current (fun _ => hs) (fun _ => sound) fun _ => owed)
  · rw [sound.mem_settle owed, h.sound.mem_settle hf, and_assoc]

/-- A builder in which the body of a function has been begun. -/
def entered (b : Builder) : Builder :=
  (b.handOut.handOut.placed b.output.bound (b.output.bound + 1)).bothOpened b.output.bound
    (b.output.bound + 1)

theorem ends_firstBlocks {ids' : List Ident} (hf : b.current? = some f) (ends : Ends (do
      let front ← (fresh : Emit Ident)
      let code ← (fresh : Emit Ident)
      modify fun b => { b with variablesBlock := some front, codeBlock := some code }
      openBlock front
      selectBlock none
      beginBlock code
      return ids : Build (List Ident)) b ids' b') : ids' = ids ∧ b' = b.entered := by
  obtain ⟨front, b1, hfront, ends⟩ := ends_bind ends
  cases hfront
  obtain ⟨code, b2, hcode, ends⟩ := ends_bind ends
  cases hcode
  obtain ⟨_, b3, hplace, ends⟩ := ends_bind ends
  cases hplace
  obtain ⟨_, b4, ⟨-, -, rfl⟩, ends⟩ := ends_then ends_openBlock ends
  obtain ⟨_, b5, ⟨rfl, -⟩, ends⟩ := ends_then ends_selectBlock ends
  obtain ⟨_, b6, hbegin, ends⟩ := ends_bind ends
  obtain ⟨rfl, rfl⟩ := ends_pure ends
  have opened : (b.handOut.handOut.placed b.output.bound (b.output.bound + 1)).current? = some f :=
    hf
  exact ⟨rfl, ends_beginBlock (current?_opened opened) hbegin⟩

theorem Opening.begin (h : b.Opening l f) (hs : l.strict) (labels : ∀ x, (x, Role.label) ∉ l.owed)
    (parameters : ∀ x ∈ ids, x ∈ f.parameters.map Parameter.id) :
    ∃ l', b.entered.Begun l' ids ∧ b.Crosses l l' b.entered ∧ l'.uses = l.uses ∧ l'.seen = l.seen ∧
      ∀ x, (x, Role.function) ∈ l'.owed ↔ (x, .function) ∈ l.owed := by
  let front := b.output.bound
  let code := b.output.bound + 1
  let l2 := (l.owe front .label fun _ => False).owe code .label fun _ => False
  let b2 := b.handOut.handOut.placed front code
  have opening : b2.Opening l2 f := h.owe.owe.placed front code
  have crosses : b.Crosses l l2 b2 := by
    have first : b.Follows l (l.owe front .label fun _ => False) b.handOut := follows_owe (by simp)
    have second : b.handOut.Follows (l.owe front .label fun _ => False) l2 b.handOut.handOut :=
      follows_owe (by simp)
    refine ((first.trans second).crosses hs ?_).trans
      ⟨rfl, rfl, rfl, rfl, .refl l2, fun _ h => h, fun _ h => h, fun _ h => h, fun _ h => h,
        fun _ h => h⟩
    exact ⟨rfl, rfl, rfl, fun x => by simp [l2, Ledger.owe]⟩
  have owedFront : (front, Role.label) ∈ l2.owed := by simp [l2, Ledger.owe]
  have owedCode : (code, Role.label) ∈ l2.owed := by simp [l2, Ledger.owe]
  obtain ⟨sound, follows, owed⟩ := opening.bothOpened hs owedFront owedCode
    (Nat.ne_of_gt (Nat.lt_succ_self _)) (by simp [l2, Ledger.owe]) rfl
  have current' : b.entered.current? = some ((f.withBlock front).withBlock code) :=
    current?_opened (current?_opened opening.current)
  refine ⟨_, ⟨sound, rfl, by simp [current'], fun x hx => ?_, fun x hx => ?_, code,
    rfl, ?_, ?_, ?_⟩, crosses.trans (follows.crosses hs ?_), rfl, rfl, fun x => ?_⟩
  · obtain ⟨hx, notFront, notCode⟩ := (owed x).1 hx
    simp only [l2, Ledger.owe, mem_cons, Prod.mk.injEq, and_true, notFront, notCode, false_or] at hx
    exact labels x hx
  · have parameter := parameters x hx
    refine ⟨.inr ⟨_, current', ?_⟩, follows.parameters hs x (crosses.parameters x ?_)⟩
    · rw [Function.fixedIds_withBlock, Function.fixedIds_withBlock]
      exact mem_append_left _ parameter
    · exact mem_flatMap.2 ⟨f, mem_functions_of_current? h.current, parameter⟩
  · exact .inr ⟨_, current', by simp⟩
  · exact Nat.lt_succ_self _
  · exact fun x hx => by simp [l2, Ledger.settle, Ledger.owe] at hx
  · refine ⟨rfl, rfl, rfl, fun x => ?_⟩
    rw [Ledger.mem_settle_of_ne (by simp), Ledger.mem_settle_of_ne (by simp)]
  · rw [Ledger.mem_settle_of_ne (by simp), Ledger.mem_settle_of_ne (by simp)]
    simp [l2, Ledger.owe]

theorem sameCode_of_ends_name {target : Ident}
    (h : Ends (liftM (name target text) : Build Unit) b u b') : b.SameCode b' := by
  obtain ⟨c, ends, same⟩ := ends_lift Emit h
  obtain rfl := same
  obtain rfl : (if b.debugNames && !text.isEmpty then
      { b with output.names := b.output.names ++ [{ target, text }] } else b) = b' :=
    congrArg Prod.snd ends
  split <;> exact ⟨rfl, rfl, rfl⟩

theorem ends_beginFunction {id returnType : Ident}
    (sound : b.Sound l) (hs : l.strict) (outside : b.inFunction = false) (closed : b.block = none)
    (labels : ∀ x, (x, Role.label) ∉ l.owed) (owed : (id, Role.function) ∈ l.owed)
    (global : ∀ t ∈ returnType :: types, b.Global l t) (uses : SymbolId → Prop)
    (ends : Ends (beginFunction id text returnType types) b ids b') :
    ∃ l', b'.Begun l' ids ∧ b.Crosses l l' b' ∧ l'.uses = uses ∧
      l'.seen = (fun x => l.seen x ∨ uses x) ∧
      ∀ x, (x, Role.function) ∈ l'.owed ↔ (x, .function) ∈ l.owed ∧ x ≠ id := by
  obtain ⟨type, b1, htype, ends⟩ := ends_bind ends
  have facts : Fact.AllHold l b ((returnType :: types).map .shared) := by
    intro φ hφ
    obtain ⟨t, ht, rfl⟩ := mem_map.1 hφ
    exact fun _ => global t ht
  obtain ⟨l1, sound1, grows1, same1, hold1⟩ :=
    (typeFunction_provides returnType types).runs.up (m := Emit) (n := Build) l b type b1
    (fun _ => sound)
      facts htype
  have hs1 : l1.strict := grows1.strict ▸ hs
  have owed1 : (id, Role.function) ∈ l1.owed := (grows1.functions hs id).2 owed
  replace ends := ends_get ends
  obtain ⟨-, ends⟩ := ends_ensure ends
  obtain ⟨_, b2, hstart, ends⟩ := ends_bind ends
  obtain rfl : b1.started id returnType type = b2 := by cases hstart; rfl
  have closed1 : b1.block = none := by
    have same : b1.block.isSome = b.block.isSome := grows1.opened
    simpa [closed] using same
  have returned : b.Shared l returnType := (global _ mem_cons_self).shared
  have own1 : b1.Global l1 type := hold1 (.shared type) (by simp) hs1
  have sound2 : (b1.started id returnType type).Sound (l1.start id uses) :=
    (sound1 hs1).started (grows1.inFunction.trans outside) closed1 owed1
      (grows1.shared hs _ returned) own1.shared
  have crosses2 : b1.Crosses l1 (l1.start id uses) (b1.started id returnType type) :=
    (sound1 hs1).crosses_started owed1
  have own : (b1.started id returnType type).Shared (l1.start id uses) id :=
    .inr (.inr (.inr (.inr (.inl (by simp [started])))))
  have placed : (b1.started id returnType type).Placed (l1.start id uses) id :=
    (placed_started owed1).2 (.inl (mem_map_of_mem owed1))
  obtain ⟨_, b3, hname, ends⟩ := ends_bind ends
  obtain ⟨l3, sound3, grows3, same3, -⟩ := (name_provides id text).runs.up (m := Emit)
    (n := Build) _ _ _ b3
    (fun _ => sound2)
    (Fact.allHold_cons (fun _ => ⟨.inl (.inl own), placed⟩) Fact.allHold_nil) hname
  have hs3 : l3.strict := grows3.strict ▸ hs1
  have code : (b1.started id returnType type).SameCode b3 := sameCode_of_ends_name hname
  have opening : b3.Opening l3 { id, returnType, type } :=
    ⟨sound3 hs3, code.block.trans closed1, code.current?.trans current?_started, rfl⟩
  obtain ⟨ids', b4, hparameters, ends⟩ := ends_bind ends
  have crosses : b.Crosses l l3 b3 :=
    (grows1.toFollows.crosses hs (Builder.Same.toSame same1)).trans
    (crosses2.trans (grows3.toFollows.crosses hs1 (Builder.Same.toSame same3)))
  obtain ⟨f, opening4, crosses4, -, found⟩ := opening.addParameters hs3
    (fun t ht => (crosses.global t (global t (mem_cons_of_mem _ ht))).shared) hparameters
  have labels3 : ∀ x, (x, Role.label) ∉ l3.owed := by
    intro x hx
    have old := (grows3.owed hs1 x).1 hx
    exact labels x ((grows1.owed hs x).1 ((Ledger.mem_settle_of_ne (by simp)).1 old))
  obtain ⟨rfl, rfl⟩ := ends_firstBlocks opening4.current ends
  obtain ⟨l', begun, crosses', uses', seen', functions⟩ := opening4.begin hs3 labels3 found
  refine ⟨l', begun, (crosses.trans crosses4).trans crosses', uses'.trans grows3.uses, ?_,
    fun x => ?_⟩
  · rw [seen', grows3.seen, ← grows1.seen]
    rfl
  · rw [functions, grows3.functions hs1, ← grows1.functions hs]
    exact (sound1 hs1).mem_settle owed1

/-! ## The end of a function -/

/-- A builder whose last function has ended. -/
def ended (b : Builder) : Builder :=
  { b with
    toCursor := b.toCursor.leave
    output.functions := modifyLast (fun f => { f with ended := true }) b.output.functions
    inFunction := false
    block := none
    variablesBlock := none
    codeBlock := none }

/-- The ledger between functions. -/
def betweenFunctions (l : Ledger) : Ledger := { l with uses := fun _ => False }

theorem placed_ended : b.ended.Placed (betweenFunctions l) x ↔ b.Placed l x := by
  have ids : b.ended.output.ids = b.output.ids := by
    rcases b.output.functions.eq_nil_or_concat' with h | ⟨fs, f, h⟩ <;>
      simp [Module.ids, ended, h, modifyLast, Function.ids]
  rw [Placed, Placed, ids]
  rfl

theorem crosses_ended : b.Crosses l (betweenFunctions l) b.ended where
  strict := rfl
  free := rfl
  program := rfl
  underway := rfl
  same := ⟨rfl, rfl, rfl, fun _ => Iff.rfl⟩
  declared _ := id
  global _ := id
  placed _ := placed_ended.2
  shared x hx := by
    have ids : b.ended.output.functions.map Function.id = b.output.functions.map Function.id := by
      rcases b.output.functions.eq_nil_or_concat' with h | ⟨fs, f, h⟩ <;>
        simp [ended, h, modifyLast]
    rw [Shared, ids]
    exact hx
  parameters x hx := by
    have same : b.ended.output.parameterIds = b.output.parameterIds := by
      rcases b.output.functions.eq_nil_or_concat' with h | ⟨fs, f, h⟩ <;>
        simp [ended, h, modifyLast, Module.parameterIds]
    exact same ▸ hx

theorem Sound.ended (sound : b.Sound l) (hf : b.current? = some f)
    (labels : ∀ x, (x, Role.label) ∉ l.owed) : b.ended.Sound (betweenFunctions l) := by
  obtain ⟨inside, fs, hfs⟩ := exists_functions hf
  have functions : b.ended.output.functions = fs ++ [{ f with ended := true }] := by
    simp [Builder.ended, hfs]
  have ids : b.ended.output.ids = b.output.ids := by
    simp [Module.ids, functions, hfs, Function.ids]
    rfl
  have crosses : b.Crosses l (betweenFunctions l) b.ended := crosses_ended
  refine ⟨⟨sound.carry crosses.shared crosses.placed ⟨rfl, rfl, rfl, rfl⟩
    (fun x hx => crosses.global x (sound.remembered x hx)) sound.announced,
    ?_, ?_, ?_, ?_, ?_, ?_, ?_, ?_⟩, ?order⟩
  case order =>
    exact sound.order.mono rfl crosses.parameters (fun _ => Iff.rfl) fun _ _ => id
  · rw [ids]
    exact sound.distinct
  · exact fun x hx => sound.below x (placed_ended.1 hx)
  · intro g hg x hx
    rw [functions] at hg
    rcases mem_append.1 hg with hg | hg
    · exact crosses.shared x (sound.heads g (by simp [hfs, hg]) x hx)
    · obtain rfl := mem_singleton.1 hg
      exact crosses.shared x (sound.heads f (by simp [hfs]) x hx)
  · intro g hg
    have cases : g ∈ fs ∨ g = { f with ended := true } := by
      simpa [Builder.finished, functions, show b.ended.inFunction = false from rfl] using hg
    rcases cases with old | rfl
    · obtain ⟨avail, checks, asks⟩ :=
        sound.finished g (by simpa [Builder.finished, inside, hfs] using old)
      exact ⟨avail, checks.mono crosses.shared (fun _ h => h) fun _ _ => rfl,
        asks.mono crosses.shared fun _ h => h⟩
    · have isLabel : ∀ t, b.IsLabel l t → t ∈ f.labels := by
        rintro t (owed | ⟨g, hg, ht⟩)
        · exact absurd owed (labels t)
        · exact Option.some.inj (hg.symm.trans hf) ▸ ht
      have checks := (sound.current f hf).mono crosses.shared isLabel fun _ _ => rfl
      exact ⟨l.avail, { checks with },
        (sound.asks f hf).mono crosses.shared fun _ h => h⟩
  · exact fun g hg => by cases hg
  · exact fun g hg => by cases hg
  · exact fun k hk => by cases hk
  · exact fun g block hg => by cases hg

theorem ends_endFunction (sound : b.Sound l)
    (hs : l.strict) (hf : b.current? = some f) (labels : ∀ x, (x, Role.label) ∉ l.owed)
    (hcode : b.codeBlock = some code) (label : b.IsLabel l code) (empty : ∀ x, ¬ l.avail code x)
    (ends : Ends endFunction b u b') :
    b'.Sound (betweenFunctions l) ∧ b.Crosses l (betweenFunctions l) b' ∧
      b'.inFunction = false ∧ b'.block = none := by
  have inside : code ∈ f.labels := by
    rcases label with owed | ⟨g, hg, ht⟩
    · exact absurd owed (labels code)
    · exact Option.some.inj (hg.symm.trans hf) ▸ ht
  obtain ⟨front, hfront⟩ : ∃ front, f.blocks.head? = some front := by
    cases hblocks : f.blocks with
    | nil => simp [Function.labels, hblocks] at inside
    | cons front rest => exact ⟨front, rfl⟩
  have first : b.variablesBlock = some front.label := sound.front f front hf hfront
  replace ends := ends_get ends
  rw [first, hcode] at ends
  obtain ⟨k, b1, ⟨rfl, g, hg, found⟩, ends⟩ := ends_then ends_blockPosition ends
  obtain ⟨running, fs, hfs⟩ := exists_functions hf
  obtain rfl : g = f := by simpa [hfs, eq_comm] using hg
  obtain ⟨rfl, block, hblock⟩ := sound.frontPosition hf first found
  obtain ⟨_, b2, ⟨rfl, -⟩, ends⟩ := ends_then ends_selectBlock ends
  obtain ⟨_, b3, ⟨k, hk, rfl⟩, ends⟩ := ends_then ends_endBlock ends
  cases hk
  replace ends := ends_get ends
  obtain ⟨-, ends⟩ := ends_ensure ends
  let i : Instruction := { op := .branch, operands := [.ref code] }
  obtain rfl : b' = (b1.pushed 0 i b1.output.bound).ended := by cases ends; rfl
  have sound' : (b1.pushed 0 i b1.output.bound).Sound l := by
    refine sound.pushed hs hf hblock (.inl ⟨rfl, rfl⟩) ⟨?_, ?_, ?_⟩ ?_ ?_
    · simp [i, Instruction.valueIds]
    · intro t ht
      obtain rfl : t = code := by simpa [i, Instruction.labelIds, Instruction.ids] using ht
      exact label
    · intro t ht x hx
      obtain rfl : t = code := by simpa [i, Instruction.targets, Instruction.ids] using ht
      exact absurd hx (empty x)
    · simp [i, Instruction.valueIds]
    · simp [i, Instruction.incoming]
  have follows : b1.Follows l l (b1.pushed 0 i b1.output.bound) := follows_pushed (Nat.le_refl _)
  refine ⟨sound'.ended (current?_pushed hf 0 i _) labels, ?_, rfl, rfl⟩
  exact (follows.crosses hs ⟨rfl, rfl, rfl, fun _ => Iff.rfl⟩).trans crosses_ended

end Builder

end ShaderGen
