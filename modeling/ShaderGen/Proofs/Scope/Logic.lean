import ShaderGen.Proofs.Control.Site

/-!
# Following building steps

`Runs before c after` says what a step does to the facts that are known: started where the facts in
`before` hold, `c` keeps the ledger, and the facts in `after` hold of its result. Since facts about
ids stay true while the module grows, the steps of a `do` block are followed one at a time, each one
adding to the facts (`Runs.bind`), and no proof speaks of states.
-/

namespace ShaderGen

open List

variable {s : State} {c : Prop} {cause : Cause} {references : List (StructId × ReferencePointer)}
  {α σ : Type} {x : Ident} {m : Type → Type} {β : Type}

theorem lookup_cons_of_ne {κ : Type} [BEq κ] [LawfulBEq κ] {k j : κ} (h : j ≠ k) (a : α)
    (list : List (κ × α)) : ((k, a) :: list).lookup j = list.lookup j := by
  simp [lookup_cons, beq_false_of_ne h]

/-! ## Steps and their states -/

/-- A monad of steps from state to state: `Ends c s a t` says that `c`, started in `s`, succeeds
with
`a` in `t`, and `Fails c s e` that it fails with `e`. -/
class Steps (m : Type → Type) (σ : outParam Type) [Monad m] where
  Ends : {α : Type} → m α → σ → α → σ → Prop
  Fails : {α : Type} → m α → σ → Failure → Prop
  ends_pure : ∀ {α : Type} {a r : α} {s t : σ}, Ends (pure a : m α) s r t → r = a ∧ t = s
  ends_bind : ∀ {α β : Type} {x : m α} {f : α → m β} {s u : σ} {r : β},
    Ends (x >>= f) s r u → ∃ a t, Ends x s a t ∧ Ends (f a) t r u
  fails_pure : ∀ {α : Type} {a : α} {s : σ} {e : Failure}, ¬ Fails (pure a : m α) s e
  fails_bind : ∀ {α β : Type} {x : m α} {f : α → m β} {s : σ} {e : Failure},
    Fails (x >>= f) s e → Fails x s e ∨ ∃ a t, Ends x s a t ∧ Fails (f a) t e
  pure_ends : ∀ {α : Type} {a : α} {s : σ}, Ends (pure a : m α) s a s
  bind_ends : ∀ {α β : Type} {x : m α} {f : α → m β} {s t u : σ} {a : α} {r : β},
    Ends x s a t → Ends (f a) t r u → Ends (x >>= f) s r u
  bind_fails : ∀ {α β : Type} {x : m α} {f : α → m β} {s : σ} {e : Failure},
    (Fails x s e ∨ ∃ a t, Ends x s a t ∧ Fails (f a) t e) → Fails (x >>= f) s e

open Steps (Ends Fails)

instance emitSteps {σ : Type} : Steps (StateM σ) σ where
  Ends c s a t := c.run s = (a, t)
  Fails _ _ _ := False
  ends_pure h := by
    cases h
    exact ⟨rfl, rfl⟩
  ends_bind {_ _ x f s u r} h := ⟨(x.run s).1, (x.run s).2, rfl, h⟩
  fails_pure := id
  fails_bind := .inl
  pure_ends := rfl
  bind_ends {_ _ x f s t u a r} first second := by
    obtain ⟨rfl, rfl⟩ : a = (x.run s).1 ∧ t = (x.run s).2 := Prod.mk.inj first.symm
    exact second
  bind_fails fails := fails.elim id fun ⟨_, _, _, fails⟩ => fails

instance failingSteps {σ : Type} : Steps (EStateM Failure σ) σ where
  Ends c s a t := c s = .ok a t
  Fails c s e := ∃ t, c s = .error e t
  fails_pure h := by
    obtain ⟨t, h⟩ := h
    cases h
  fails_bind {_ _ x f s e} h := by
    obtain ⟨u, h⟩ := h
    change EStateM.bind x f s = _ at h
    unfold EStateM.bind at h
    split at h
    · exact .inr ⟨_, _, ‹_›, u, h⟩
    · cases h
      exact .inl ⟨_, ‹_›⟩
  ends_pure h := by
    cases h
    exact ⟨rfl, rfl⟩
  ends_bind {_ _ x f s u r} h := by
    change EStateM.bind x f s = _ at h
    unfold EStateM.bind at h
    split at h
    · exact ⟨_, _, ‹_›, h⟩
    · cases h
  pure_ends := rfl
  bind_ends {_ _ x f s t u a r} first second := by
    change EStateM.bind x f s = _
    have same : x s = .ok a t := first
    rw [EStateM.bind, same]
    exact second
  bind_fails {_ _ x f s e} fails := by
    obtain ⟨t, fails⟩ | ⟨a, t, ends, u, fails⟩ := fails
    · exact ⟨t, by change EStateM.bind x f s = _; rw [EStateM.bind, fails]⟩
    · have same : x s = .ok a t := ends
      exact ⟨u, by change EStateM.bind x f s = _; rw [EStateM.bind, same]; exact fails⟩

/-- A look at the state, which is the first step of several. -/
class Steps.Looks (m : Type → Type) (σ : outParam Type) [Monad m] [Steps m σ] [MonadStateOf σ m] :
    Prop where
  ends_get : ∀ {β : Type} {f : σ → m β} {s u : σ} {r : β}, Ends (get >>= f) s r u → Ends (f s) s r u

export Steps.Looks (ends_get)

instance {σ : Type} : Steps.Looks (StateM σ) σ := ⟨id⟩

instance {σ : Type} : Steps.Looks (EStateM Failure σ) σ := ⟨id⟩

/-- The first of two steps, with what is known of it. -/
theorem Steps.ends_then [Monad m] [Steps m σ] {x : m α}
    {f : α → m β} {s u : σ} {r : β} {P : α → σ → Prop} (h : ∀ {a t}, Ends x s a t → P a t)
    (ends : Ends (x >>= f) s r u) : ∃ a t, P a t ∧ Ends (f a) t r u := by
  obtain ⟨a, t, first, rest⟩ := Steps.ends_bind ends
  exact ⟨a, t, h first, rest⟩

/-- The first two of several steps. -/
theorem ends_bind₂ {γ : Type} [Monad m] [Steps m σ] {x : m α} {f : α → m β} {g : α → β → m γ}
    {s u : σ} {r : γ} (ends : Ends (do let a ← x; let b ← f a; g a b) s r u) :
    ∃ a t, Ends x s a t ∧ ∃ b t', Ends (f a) t b t' ∧ Ends (g a b) t' r u := by
  obtain ⟨a, t, first, ends⟩ := Steps.ends_bind ends
  exact ⟨a, t, first, Steps.ends_bind ends⟩

theorem Steps.length_of_ends_mapM [Monad m] [LawfulMonad m]
    [Steps m σ] {f : α → m β} {list : List α} {s t : σ} {rs : List β}
    (h : Ends (list.mapM f) s rs t) : rs.length = list.length := by
  induction list generalizing s rs t with
  | nil =>
    obtain ⟨rfl, -⟩ := Steps.ends_pure h
    rfl
  | cons a rest ih =>
    rw [mapM_cons] at h
    obtain ⟨r, s1, -, rs', s2, hrest, h⟩ := ends_bind₂ h
    obtain ⟨rfl, -⟩ := Steps.ends_pure h
    simp [ih hrest]

/-! ## What code generation remembers -/

/-- Nothing that a type leads to is left to be made: its structure has had a type, its reference a
pointer type, and its lengths are bound. -/
structure Ledger.Covers (l : Ledger) (basic : BasicType) (arrays : List ArraySize) : Prop where
  reference : ∀ id, basic = .reference id → l.referenced id
  struct : ∀ id, basic = .struct id ∨ basic = .block id → l.typed id
  length : ∀ x, ArraySize.spec x ∈ arrays → l.bound x

/-- A variable that lives in the function that uses it. -/
def Program.IsLocal (p : Program) (x : SymbolId) : Prop :=
  ∃ d, p.symbol? x = some d ∧ d.type.qualifier.specConstant = false ∧
    (d.type.qualifier.storage = .constant → d.value = none) ∧ p.isGlobal x d = false

/-- A symbol that at most one function can use: a parameter or a local variable. -/
def Program.IsPrivate (p : Program) (x : SymbolId) : Prop :=
  p.IsLocal x ∨ ∃ f ∈ p.functions, x ∈ f.parameters

/-- What a symbol is bound to can be used wherever the symbol is used: anywhere, or in the function
that the symbol belongs to. -/
def Binding.Fits (l : Ledger) (b : Builder) (x : SymbolId) : Binding → Prop
  | .object pointer type _ => b.Global l type ∧ b.Placed l pointer ∧
    (b.Shared l pointer ∨ l.program.IsPrivate x ∧ l.seen x ∧ (l.uses x → b.Fixed l pointer))
  | .value id type => b.Global l type ∧
    (b.Global l id ∨ id ∈ b.output.parameterIds ∧
      l.program.IsPrivate x ∧ l.seen x ∧ (l.uses x → b.Fixed l id))

/-- The ids that code generation remembers can be used. -/
structure State.Records (l : Ledger) (b : Builder) (s : State) : Prop where
  bindings : ∀ x binding, s.bindings.lookup x = some binding → binding.Fits l b x ∧ l.bound x
  signatures : ∀ f signature, s.signatures.lookup f = some signature →
    (b.Shared l signature.id ∧ b.Placed l signature.id) ∧ b.Global l signature.returnType ∧
      ∀ t ∈ signature.parameterTypes, b.Global l t
  structTypes : ∀ key type, s.structTypes.lookup key = some type →
    (b.Global l type ∧ b.Declared .typeStruct type) ∧ l.typed key.id
  references : ∀ id r, s.references.lookup id = some r → b.Global l r.type ∧ l.referenced id
  pairTypes : ∀ part type, s.pairTypes.lookup part = some type → b.Global l type

/-- The pointer types for references that are only announced are those that are owed, and each one
is for a structure that has a type or is about to get one. -/
structure Ledger.Tracks (l : Ledger) (references : List (StructId × ReferencePointer)) : Prop where
  referenced : ∀ id, l.referenced id → (references.lookup id).isSome
  announced : ∀ x, (x, Role.pointer) ∈ l.owed → ∃ id, id < l.program.structs.length ∧
    references.lookup id = some (.announced x) ∧ (l.typed id ∨ l.underway id)
  pending : ∀ id x, references.lookup id = some (.announced x) → (x, Role.pointer) ∈ l.owed
  single : ∀ id id' x, references.lookup id = some (.announced x) →
    references.lookup id' = some (.announced x) → id = id'

/-- The labels that jumps out of a construct go to. -/
def JumpScope.labels (scope : JumpScope) : List Ident :=
  scope.merge :: scope.continueTarget?.toList

/-- Code generation keeps to its ledger. -/
structure State.Sound (l : Ledger) (s : State) : Prop where
  builder : s.builder.Sound l
  records : s.Records l s.builder
  /-- By the time of the first function, everything at module scope is bound. -/
  globals : l.free ∨ (s.builder.inFunction = true → ∀ x d, l.program.symbol? x = some d →
    l.program.isGlobal x d → (s.bindings.lookup x).isSome)
  symbols : ∀ x, l.bound x → (s.bindings.lookup x).isSome
  typed : ∀ id, l.typed id ↔ id ∈ s.typedStructs
  members : ∀ id ∈ s.typedStructs, ∀ d, l.program.struct? id = some d →
    ∀ m ∈ l.program.presentMembers d, l.Covers m.1.type.basic m.1.type.arrays
  tracks : l.Tracks s.references
  underway : ∀ id ∈ s.underway, l.underway id ∧ id < l.program.structs.length
  scopes : s.builder.block.isSome → ∀ scope ∈ s.scopes, ∀ t ∈ scope.labels,
    s.builder.IsLabel l t ∧ t < s.builder.output.bound ∧ ∀ x, l.avail t x → s.builder.Known l x

/-- The states that steps work on: each one has a builder inside, and possibly more. -/
class World (σ : Type) where
  builder : σ → Builder
  replace : σ → Builder → σ
  builder_replace : ∀ s b, builder (replace s b) = b
  replace_replace : ∀ s b c, replace (replace s b) c = replace s c
  /-- The state keeps to its ledger. -/
  Sound : Ledger → σ → Prop
  /-- What else does not change. -/
  Same : Ledger → σ → Ledger → σ → Prop
  same_refl : ∀ l s, Same l s l s
  same_trans : ∀ {l₁ s₁ l₂ s₂ l₃ s₃}, Same l₁ s₁ l₂ s₂ → Same l₂ s₂ l₃ s₃ → Same l₁ s₁ l₃ s₃

/-- Building steps announce no pointers and bind no symbols. -/
structure Ledger.Same (l l' : Ledger) : Prop where
  symbols : l'.bound = l.bound
  typed : l'.typed = l.typed
  referenced : l'.referenced = l.referenced
  pointers : ∀ x, (x, Role.pointer) ∈ l'.owed ↔ (x, .pointer) ∈ l.owed

theorem Ledger.Same.refl (l : Ledger) : l.Same l := ⟨rfl, rfl, rfl, fun _ => Iff.rfl⟩

theorem Ledger.Same.trans {l1 l2 l3 : Ledger} (h : l1.Same l2) (g : l2.Same l3) : l1.Same l3 :=
  ⟨g.symbols.trans h.symbols, g.typed.trans h.typed, g.referenced.trans h.referenced,
    fun x => (g.pointers x).trans (h.pointers x)⟩

/-- Building steps leave no construct around the current place. -/
structure Builder.Same (l : Ledger) (b : Builder) (l' : Ledger) (b' : Builder) : Prop
    extends l.Same l' where
  emits : b.Emits [] b'

instance builderWorld : World Builder where
  builder b := b
  replace _ b := b
  builder_replace _ _ := rfl
  replace_replace _ _ _ := rfl
  Sound l b := l.strict → b.Sound l
  Same := Builder.Same
  same_refl l b := ⟨.refl l, .refl [] b⟩
  same_trans h g := ⟨h.toSame.trans g.toSame, h.emits.trans g.emits⟩

/-- The labels that jumps can go to. -/
def State.exits (s : State) : List Ident := s.scopes.flatMap JumpScope.labels

/-- Steps of code generation leave the constructs around the current place, and what has been
declared of functions, as they are. -/
structure State.Same (s s' : State) : Prop where
  scopes : s'.scopes = s.scopes
  returnType : s'.returnType = s.returnType
  signatures : s'.signatures = s.signatures
  emits : s.builder.Emits s.exits s'.builder

theorem State.Same.refl (s : State) : s.Same s := ⟨rfl, rfl, rfl, .refl _ _⟩

theorem State.Same.trans {t u : State} (h : s.Same t) (g : t.Same u) : s.Same u where
  scopes := g.scopes.trans h.scopes
  returnType := g.returnType.trans h.returnType
  signatures := g.signatures.trans h.signatures
  emits := by
    have exits : t.exits = s.exits := by rw [State.exits, h.scopes, State.exits]
    exact h.emits.trans (exits ▸ g.emits)

instance stateWorld : World State where
  builder := State.builder
  replace s b := { s with builder := b }
  builder_replace _ _ := rfl
  replace_replace _ _ _ := rfl
  Sound l s := l.strict → s.Sound l
  Same _ s _ s' := s.Same s'
  same_refl _ s := .refl s
  same_trans := State.Same.trans

/-! ## Facts -/

/-- The ids that a path takes its values from. -/
def AccessPath.valueIds (q : AccessPath) : List Ident :=
  q.base :: q.indices ++ q.component.toList

/-- What is known while code is generated. All but what can be used at one place stays true wherever
control goes. -/
inductive Fact
  /-- Can be used at the current place. -/
  | value (x : Ident)
  /-- Can be used all over the function. -/
  | fixed (x : Ident)
  /-- Can be used anywhere. -/
  | anywhere (x : Ident)
  /-- Is a type or a constant at module scope. -/
  | shared (x : Ident)
  /-- Is declared at module scope by an instruction of the kind. -/
  | declared (op : Opcode) (x : Ident)
  /-- Can be used as the length of an array. -/
  | length (x : Ident)
  /-- The function uses the symbol. -/
  | used (x : SymbolId)
  | program (p : Program)
  /-- No type is underway. -/
  | settled (p : Program)
  /-- A block takes code of a function that uses the symbols. -/
  | body (p : Program) (xs : List SymbolId)
  /-- Can be used at the end of a block. -/
  | leaves (label x : Ident)
  /-- Control can go to the block from here. -/
  | target (t : Ident)
  /-- No function is under construction. -/
  | outside
  | covered (basic : BasicType) (arrays : List ArraySize)
  | typed (id : StructId)
  | referenced (id : StructId)
  | bound (x : SymbolId)
  /-- What the symbol is bound to can be used wherever the symbol can. -/
  | fits (x : SymbolId) (binding : Binding)
  /-- The ids that a path is made of can be used at the current place. -/
  | path (q : AccessPath)
  /-- What a builder had to offer can be used anywhere. -/
  | tables (b : Builder)
  /-- What code generation remembered can be used. -/
  | records (s : State)

variable {facts : List Fact} {b : Builder} {φ : Fact} {l l' : Ledger} {scopes : List JumpScope}

namespace Fact

/-- What a fact says. -/
def Holds (l : Ledger) (b : Builder) : Fact → Prop
  | .value x => l.strict → b.Known l x ∧ b.Placed l x
  | .fixed x => l.strict → b.Fixed l x ∧ b.Placed l x
  | .anywhere x => l.strict → b.Shared l x ∧ b.Placed l x
  | .shared x => l.strict → b.Global l x
  | .declared op x => l.strict → b.Declared op x
  | .length x => l.strict → b.Global l x ∨ x ∈ b.output.parameterIds
  | .used x => l.strict → l.uses x ∧ l.seen x
  | .program p => l.strict → l.program = p
  | .settled p => l.strict → l.program = p ∧ ∀ id, ¬ l.underway id
  | .body p xs => b.block.isSome ∧ b.current?.isSome ∧ (l.straight → l.strict) ∧
    (l.strict → l.program = p ∧ (∀ id, ¬ l.underway id) ∧ ∀ x ∈ xs, l.uses x ∧ l.seen x)
  | .leaves label x => l.strict → b.Leaves l label x
  | .target t => l.strict →
    b.IsLabel l t ∧ t < b.output.bound ∧ ∀ x, l.avail t x → b.Known l x
  | .outside => l.strict → l.free ∨ b.inFunction = false
  | .covered basic arrays => l.strict → l.Covers basic arrays
  | .typed id => l.strict → l.typed id
  | .referenced id => l.strict → l.referenced id
  | .bound x => l.strict → l.bound x
  | .fits x binding => l.strict → binding.Fits l b x
  | .path q => l.strict → (∀ x ∈ q.valueIds, b.Known l x ∧ b.Placed l x) ∧
    b.Global l q.baseType ∧ b.Global l q.type
  | .tables c => l.strict → (∀ x ∈ c.offered, b.Global l x) ∧
    ∀ x ∈ c.lent, b.Shared l x ∧ b.Placed l x
  | .records s => l.strict → s.Records l b

/-- Stays true wherever control goes. -/
def isLasting : Fact → Bool
  | .value _ | .path _ | .body _ _ | .target _ => false
  | _ => true

/-- All of the facts hold. -/
def AllHold (l : Ledger) (b : Builder) (facts : List Fact) : Prop :=
  ∀ φ ∈ facts, φ.Holds l b

theorem allHold_cons (h : φ.Holds l b) (hs : AllHold l b facts) : AllHold l b (φ :: facts) :=
  forall_mem_cons.2 ⟨h, hs⟩

theorem allHold_nil : AllHold l b [] :=
  fun _ h => by cases h

end Fact

/-- Where the facts in `before` hold, those in `after` do. Most often the two lists show it, and it
is found as an instance. -/
class Entails (before after : List Fact) : Prop where
  holds : ∀ l b, Fact.AllHold l b before → Fact.AllHold l b after

section Mono

variable {l l' : Ledger} {b b' : Builder} {f : Function}

theorem Builder.Global.shared (h : b.Global l x) : b.Shared l x :=
  .inr (h.imp_right .inl)

theorem Builder.Global.placed (h : b.Global l x) : b.Placed l x := by
  rcases h with h | h
  · exact .inr (by simp [Module.ids, h])
  · exact .inl (mem_map_of_mem h)

theorem Builder.placed_of_parameter (h : x ∈ b.output.parameterIds) : b.Placed l x := by
  obtain ⟨f, hf, hx⟩ := mem_flatMap.1 h
  refine .inr (mem_append_right _ (mem_flatMap.2 ⟨f, hf, ?_⟩))
  exact mem_append_left _ (mem_cons_of_mem _ hx)

theorem Builder.Sound.offered (h : b.Sound l) (hx : x ∈ b.offered) : b.Global l x := by
  rcases mem_append.1 hx with hx | hx
  · exact h.remembered x hx
  · exact .inl hx

theorem Builder.Sound.lent (h : b.Sound l) (hx : x ∈ b.lent) : b.Shared l x ∧ b.Placed l x := by
  rcases mem_append.1 hx with hx | hx
  · exact ⟨.inl hx, .inr (mem_append_left _ (mem_append_left _ hx))⟩
  · exact h.interface x hx

theorem Builder.Sound.tables (h : l.strict → b.Sound l) : (Fact.tables b).Holds l b :=
  fun hs => ⟨fun _ => (h hs).offered, fun _ => (h hs).lent⟩

theorem Function.fixedIds_subset_ids (h : x ∈ f.fixedIds) : x ∈ f.ids := by
  rcases mem_append.1 h with h | h
  · simp [Function.ids, h]
  · cases hb : f.blocks with
    | nil => simp [hb] at h
    | cons block rest =>
      have : x ∈ results block.body := by simpa [hb] using h
      simp [Function.ids, hb, Block.ids, this]

theorem Builder.mem_functions_of_current? (h : b.current? = some f) : f ∈ b.output.functions := by
  unfold current? at h
  split at h
  · exact mem_of_getLast? h
  · cases h

theorem Ledger.Covers.mono (h : b.Follows l l' b') (hs : l.strict) {basic : BasicType}
    {arrays : List ArraySize} (c : l.Covers basic arrays) : l'.Covers basic arrays :=
  ⟨fun id hid => h.referenced hs id (c.reference id hid),
    fun id hid => h.typed hs id (c.struct id hid), fun x hx => h.symbols hs x (c.length x hx)⟩

theorem Binding.Fits.mono (h : b.Follows l l' b') (hs : l.strict) {x : SymbolId}
    {binding : Binding} (fits : binding.Fits l b x) : binding.Fits l' b' x := by
  cases binding with
  | object pointer type storage =>
    refine ⟨h.global hs _ fits.1, h.placed hs _ fits.2.1, ?_⟩
    rcases fits.2.2 with shared | ⟨own, seen, fixed⟩
    · exact .inl (h.shared hs _ shared)
    · exact .inr ⟨h.program ▸ own, h.seen ▸ seen, fun u => h.fixed hs _ (fixed (h.uses ▸ u))⟩
  | value id type =>
    refine ⟨h.global hs _ fits.1, ?_⟩
    rcases fits.2 with global | ⟨parameter, own, seen, fixed⟩
    · exact .inl (h.global hs _ global)
    · exact .inr ⟨h.parameters hs _ parameter, h.program ▸ own, h.seen ▸ seen,
        fun u => h.fixed hs _ (fixed (h.uses ▸ u))⟩

theorem Builder.Declared.mono (h : b.Follows l l' b') {op : Opcode}
    (hx : b.Declared op x) : b'.Declared op x := by
  obtain ⟨i, hi, op, result⟩ := hx
  exact ⟨i, h.declared i hi, op, result⟩

theorem State.Records.mono (h : b.Follows l l' b') (hs : l.strict) (r : s.Records l b) :
    s.Records l' b' where
  bindings x binding hx :=
    ⟨(r.bindings x binding hx).1.mono h hs, h.symbols hs x (r.bindings x binding hx).2⟩
  signatures f signature hf := by
    obtain ⟨id, type, parameters⟩ := r.signatures f signature hf
    exact ⟨⟨h.shared hs _ id.1, h.placed hs _ id.2⟩, h.global hs _ type,
      fun t ht => h.global hs t (parameters t ht)⟩
  structTypes key type hk := by
    obtain ⟨⟨global, struct⟩, typed⟩ := r.structTypes key type hk
    exact ⟨⟨h.global hs _ global, struct.mono h⟩, h.typed hs _ typed⟩
  references id p hp :=
    ⟨h.global hs _ (r.references id p hp).1, h.referenced hs _ (r.references id p hp).2⟩
  pairTypes part type hp := h.global hs _ (r.pairTypes part type hp)

theorem Fact.Holds.mono_of_isLasting (h : b.Follows l l' b') (lasting : φ.isLasting)
    (holds : φ.Holds l b) : φ.Holds l' b' := by
  have strict : l'.strict → l.strict := fun hs => h.strict ▸ hs
  cases φ with
  | value x | path q | body p xs | target t => cases lasting
  | leaves label x => exact fun hs => h.leaves (strict hs) label x (holds (strict hs))
  | fixed x =>
    exact fun hs => (holds (strict hs)).imp (h.fixed (strict hs) x) (h.placed (strict hs) x)
  | anywhere x =>
    exact fun hs => (holds (strict hs)).imp (h.shared (strict hs) x) (h.placed (strict hs) x)
  | shared x => exact fun hs => h.global (strict hs) x (holds (strict hs))
  | declared op x => exact fun hs => (holds (strict hs)).mono h
  | length x =>
    exact fun hs => (holds (strict hs)).imp (h.global (strict hs) x) (h.parameters (strict hs) x)
  | used x => exact fun hs => h.uses ▸ h.seen ▸ holds (strict hs)
  | program p => exact fun hs => h.program.trans (holds (strict hs))
  | settled p => exact fun hs => h.program ▸ h.underway ▸ holds (strict hs)
  | outside => exact fun hs => h.free ▸ h.inFunction ▸ holds (strict hs)
  | covered basic arrays => exact fun hs => (holds (strict hs)).mono h (strict hs)
  | typed id => exact fun hs => h.typed (strict hs) id (holds (strict hs))
  | referenced id => exact fun hs => h.referenced (strict hs) id (holds (strict hs))
  | bound x => exact fun hs => h.symbols (strict hs) x (holds (strict hs))
  | fits x binding => exact fun hs => (holds (strict hs)).mono h (strict hs)
  | tables c =>
    exact fun hs => ⟨fun x hx => h.global (strict hs) x ((holds (strict hs)).1 x hx), fun x hx =>
      ((holds (strict hs)).2 x hx).imp (h.shared (strict hs) x) (h.placed (strict hs) x)⟩
  | records s => exact fun hs => (holds (strict hs)).mono h (strict hs)

theorem Fact.Holds.mono_of (h : b.Follows l l' b')
    (known : l.strict → ∀ x, b.Known l x → b'.Known l' x)
    (opened : b.block.isSome → b'.block.isSome) (holds : φ.Holds l b) : φ.Holds l' b' := by
  cases φ with
  | value x =>
    intro hs'
    have hs : l.strict := h.strict ▸ hs'
    exact ⟨known hs x (holds hs).1, h.placed hs x (holds hs).2⟩
  | path q =>
    intro hs'
    have hs : l.strict := h.strict ▸ hs'
    obtain ⟨values, baseType, type⟩ := holds hs
    exact ⟨fun x hx => ⟨known hs x (values x hx).1, h.placed hs x (values x hx).2⟩,
      h.global hs _ baseType, h.global hs _ type⟩
  | body p xs =>
    refine ⟨opened holds.1, h.isSome_current? holds.2.1, ?_, fun hs' => ?_⟩
    · rw [h.straight, h.strict]
      exact holds.2.2.1
    · rw [h.program, h.underway, h.uses, h.seen]
      exact holds.2.2.2 (h.strict ▸ hs')
  | target t =>
    intro hs'
    have hs : l.strict := h.strict ▸ hs'
    obtain ⟨label, below, avail⟩ := holds hs
    refine ⟨h.label hs t label, Nat.lt_of_lt_of_le below h.bound, fun x hx => known hs x ?_⟩
    exact avail x (h.avail hs t below ▸ hx)
  | _ => exact mono_of_isLasting h rfl holds

theorem Fact.Holds.mono (h : b.Grows l l' b') (holds : φ.Holds l b) : φ.Holds l' b' :=
  holds.mono_of h.toFollows h.known fun isOpen => h.opened ▸ isOpen

theorem Fact.AllHold.mono (h : b.Grows l l' b') (hold : AllHold l b facts) : AllHold l' b' facts :=
  fun φ hφ => (hold φ hφ).mono h

end Mono

/-! ## Entailment -/

/-- Where the facts in `before` hold, `φ` does. -/
class Gives (before : List Fact) (φ : Fact) : Prop where
  holds : ∀ l b, Fact.AllHold l b before → φ.Holds l b

section Entailment

variable {before before' after after' : List Fact} {φ ψ : Fact} {x : Ident}

theorem Gives.of_mem (h : φ ∈ before) : Gives before φ := ⟨fun _ _ hold => hold φ h⟩

theorem Gives.of_subset (h : Gives before φ) (sub : before ⊆ before') : Gives before' φ :=
  ⟨fun l b hold => h.holds l b fun ψ hψ => hold ψ (sub hψ)⟩

theorem Entails.of_subset (h : Entails before after) (sub : before ⊆ before') :
    Entails before' after :=
  ⟨fun l b hold => h.holds l b fun ψ hψ => hold ψ (sub hψ)⟩

@[simp] theorem entails_cons : Entails before (φ :: after) ↔ Gives before φ ∧
    Entails before after := by
  constructor
  · exact fun h => ⟨⟨fun l b hold => h.holds l b hold φ mem_cons_self⟩,
      ⟨fun l b hold ψ hψ => h.holds l b hold ψ (mem_cons_of_mem φ hψ)⟩⟩
  · exact fun ⟨g, h⟩ => ⟨fun l b hold => Fact.allHold_cons (g.holds l b hold) (h.holds l b hold)⟩

@[simp] theorem entails_append :
    Entails before (after ++ after') ↔ Entails before after ∧ Entails before after' := by
  constructor
  · exact fun h => ⟨⟨fun l b hold ψ hψ => h.holds l b hold ψ (mem_append_left after' hψ)⟩,
      ⟨fun l b hold ψ hψ => h.holds l b hold ψ (mem_append_right after hψ)⟩⟩
  · exact fun ⟨h, g⟩ => ⟨fun l b hold ψ hψ =>
      (mem_append.1 hψ).elim (h.holds l b hold ψ) (g.holds l b hold ψ)⟩

@[simp low] theorem entails_flatMap {f : α → List Fact} {list : List α} :
    Entails before (list.flatMap f) ↔ ∀ a ∈ list, Entails before (f a) := by
  constructor
  · exact fun h a ha => ⟨fun l b hold ψ hψ => h.holds l b hold ψ (mem_flatMap.2 ⟨a, ha, hψ⟩)⟩
  · intro h
    refine ⟨fun l b hold ψ hψ => ?_⟩
    obtain ⟨a, ha, hψ⟩ := mem_flatMap.1 hψ
    exact (h a ha).holds l b hold ψ hψ

/-! What the lists show -/

@[simp] instance entails_nil : Entails before [] := ⟨fun _ _ _ _ h => by cases h⟩

@[simp] instance entails_refl : Entails before before := ⟨fun _ _ h => h⟩

instance [g : Gives before φ] [h : Entails before after] : Entails before (φ :: after) :=
  entails_cons.2 ⟨g, h⟩

instance [h : Entails before after] [g : Entails before after'] :
    Entails before (after ++ after') :=
  entails_append.2 ⟨h, g⟩

instance (priority := low) Entails.cons [h : Entails before after] : Entails (φ :: before) after :=
  h.of_subset (subset_cons_self φ before)

instance (priority := low) Entails.left [h : Entails before after] :
    Entails (before ++ before') after :=
  h.of_subset (subset_append_left before before')

instance (priority := low) Entails.right [h : Entails before' after] :
    Entails (before ++ before') after :=
  h.of_subset (subset_append_right before before')

instance [g : Gives before φ] : Gives (ψ :: before) φ := g.of_subset (subset_cons_self ψ before)

instance : Gives (φ :: before) φ := .of_mem mem_cons_self

instance [g : Gives before φ] : Gives (before ++ before') φ :=
    g.of_subset (subset_append_left before before')

instance [g : Gives before' φ] : Gives (before ++ before') φ :=
  g.of_subset (subset_append_right before before')

instance Gives.anywhere [g : Gives before (.shared x)] : Gives before (.anywhere x) where
  holds l b hold hs :=
    have global : b.Global l x := g.holds l b hold hs
    ⟨global.shared, global.placed⟩

instance Gives.fixed [g : Gives before (.anywhere x)] : Gives before (.fixed x) :=
  ⟨fun l b hold hs => (g.holds l b hold hs).imp_left .inl⟩

instance Gives.value [g : Gives before (.fixed x)] : Gives before (.value x) :=
  ⟨fun l b hold hs => (g.holds l b hold hs).imp_left .inl⟩

instance Gives.length [g : Gives before (.shared x)] : Gives before (.length x) :=
  ⟨fun l b hold hs => .inl (g.holds l b hold hs)⟩

section Lists

variable {α : Type} {f : α → Fact} {g : Ident → Fact} {a : α} {n : Nat} {list rest : List α}
  {ids : List Ident}
  {operands others : List Operand}

instance : Entails before (map f []) := entails_nil

instance [Gives before (f a)] [Entails before (list.map f)] : Entails before ((a :: list).map f) :=
  inferInstanceAs (Entails before (f a :: list.map f))

instance [h : Gives (f a :: list.map f) φ] : Gives ((a :: list).map f) φ := h

instance {f : α → List Fact} : Entails before (flatMap f []) := entails_nil

instance {f : α → List Fact} [Entails before (f a)] [Entails before (list.flatMap f)] :
    Entails before ((a :: list).flatMap f) := by
  rw [flatMap_cons]
  infer_instance

instance [Entails before (list.map f)] [Entails before (rest.map f)] :
    Entails before ((list ++ rest).map f) := by
  rw [map_append]
  infer_instance

instance : Entails before ((Operand.ids []).map g) := entails_nil

instance [Gives before (g x)] [Entails before ((Operand.ids operands).map g)] :
    Entails before ((Operand.ids (.ref x :: operands)).map g) :=
  inferInstanceAs (Entails before (g x :: (Operand.ids operands).map g))

instance [h : Entails before ((Operand.ids operands).map g)] :
    Entails before ((Operand.ids (.literal n :: operands)).map g) := h

instance [h : Entails before (ids.map g)] :
    Entails before ((Operand.ids (Operand.refs ids)).map g) := by
  rwa [Operand.ids_refs]

end Lists

@[simp low] theorem entails_map {f : α → Fact} {list : List α} :
    Entails before (list.map f) ↔ ∀ a ∈ list, Gives before (f a) := by
  simp [map_eq_flatMap]

@[simp] theorem entails_replicate {n : Nat} (h : Gives before φ) :
    Entails before (replicate n φ) := by
  refine ⟨fun l b hold ψ hψ => ?_⟩
  obtain ⟨-, rfl⟩ := mem_replicate.1 hψ
  exact h.holds l b hold

@[simp] theorem entails_cons_of (h : Entails before after) : Entails (φ :: before) after := .cons

@[simp] theorem entails_append_of (h : Entails before after ∨ Entails before' after) :
    Entails (before ++ before') after := h.elim (fun _ => .left) fun _ => .right

@[simp] theorem gives_anywhere (h : .anywhere x ∈ before ∨ .shared x ∈ before) :
    Gives before (.anywhere x) := h.elim .of_mem fun h => .anywhere (g := .of_mem h)

@[simp] theorem gives_fixed (h : .fixed x ∈ before ∨ .shared x ∈ before ∨ .anywhere x ∈ before) :
    Gives before (.fixed x) := h.elim .of_mem fun h => .fixed (g := gives_anywhere h.symm)

@[simp] theorem gives_value
    (h : .value x ∈ before ∨ .fixed x ∈ before ∨ .shared x ∈ before ∨ .anywhere x ∈ before) :
    Gives before (.value x) := h.elim .of_mem fun h => .value (g := gives_fixed h)

@[simp] theorem gives_length (h : .length x ∈ before ∨ .shared x ∈ before) :
    Gives before (.length x) := h.elim .of_mem fun h => .length (g := .of_mem h)

instance {p : Program} {xs : List SymbolId} : Gives (.body p xs :: before) (.settled p) :=
  ⟨fun _ _ hold hs => ((hold _ mem_cons_self).2.2.2 hs).imp_right And.left⟩

instance {p : Program} [g : Gives before (.settled p)] : Gives before (.program p) :=
  ⟨fun l b hold hs => (g.holds l b hold hs).1⟩

theorem gives_used_of_body (p : Program) {xs : List SymbolId} {y : SymbolId} (hy : y ∈ xs)
    [g : Gives before (.body p xs)] : Gives before (.used y) :=
  ⟨fun l b hold hs => ((g.holds l b hold).2.2.2 hs).2.2 y hy⟩

section Path

variable {q : AccessPath}

theorem Gives.path (types : Entails before [.shared q.baseType, .shared q.type])
    (values : Entails before (q.valueIds.map .value)) : Gives before (.path q) := by
  refine ⟨fun l b hold hs => ⟨fun x hx => ?_, ?_, ?_⟩⟩
  · exact values.holds l b hold (.value x) (mem_map_of_mem hx) hs
  · exact types.holds l b hold (.shared q.baseType) (by simp) hs
  · exact types.holds l b hold (.shared q.type) (by simp) hs

@[simp] theorem gives_path (h : .path q ∈ before ∨
    (Entails before [.shared q.baseType, .shared q.type] ∧
      Entails before (.value q.base :: q.indices.map .value) ∧
      Entails before (q.component.toList.map .value))) : Gives before (.path q) := by
  rcases h with h | ⟨types, front, component⟩
  · exact .of_mem h
  · refine .path types ?_
    rw [AccessPath.valueIds, map_append, entails_append]
    exact ⟨front, component⟩

variable [g : Gives before (.path q)]

theorem entails_valueIds : Entails before (q.valueIds.map .value) := by
  refine ⟨fun l b hold φ hφ => ?_⟩
  obtain ⟨x, hx, rfl⟩ := mem_map.1 hφ
  exact fun hs => (g.holds l b hold hs).1 x hx

@[simp] instance entails_indices : Entails before (q.indices.map .value) := by
  have all : Entails before (q.valueIds.map .value) := entails_valueIds
  simp only [AccessPath.valueIds, map_append, map_cons, entails_append, entails_cons] at all
  exact all.1.2

@[simp] instance entails_component : Entails before (q.component.toList.map .value) := by
  have all : Entails before (q.valueIds.map .value) := entails_valueIds
  rw [AccessPath.valueIds, map_append, entails_append] at all
  exact all.2

@[simp] instance gives_base : Gives before (.value q.base) := by
  have all : Entails before (q.valueIds.map .value) := entails_valueIds
  simp only [AccessPath.valueIds, map_append, map_cons, entails_append, entails_cons] at all
  exact all.1.1

@[simp] instance gives_baseType : Gives before (.shared q.baseType) :=
  ⟨fun l b hold hs => (g.holds l b hold hs).2.1⟩

@[simp] instance gives_type : Gives before (.shared q.type) :=
  ⟨fun l b hold hs => (g.holds l b hold hs).2.2⟩

theorem gives_component (hx : q.component = some x) : Gives before (.value x) := by
  have component : Entails before (q.component.toList.map .value) := inferInstance
  simpa [hx] using component

end Path

@[simp] theorem gives_of_mem (h : φ ∈ before) : Gives before φ := .of_mem h

end Entailment

/-! ## Runs -/

section Runs

variable {m : Type → Type} {σ : Type} [Monad m] [Steps m σ] [World σ] {α β γ : Type}

/-- Started where the facts in `before` hold, the step keeps the ledger, and the facts in `after`
hold of what it gives. -/
def Runs (before : List Fact) (c : m α) (after : α → List Fact) : Prop :=
  ∀ (l : Ledger) (s : σ) (a : α) (t : σ), World.Sound l s →
    Fact.AllHold l (World.builder s) before → Ends c s a t →
    ∃ l', World.Sound l' t ∧ (World.builder s).Grows l l' (World.builder t) ∧
      World.Same l s l' t ∧ Fact.AllHold l' (World.builder t) (after a)

variable {before before' : List Fact} {after : α → List Fact}

theorem Runs.pure {a : α} [h : Entails before (after a)] :
    Runs before (Pure.pure a : m α) after := by
  intro l s r t sound hold ends
  obtain ⟨rfl, rfl⟩ := Steps.ends_pure ends
  exact ⟨l, sound, .refl l _, World.same_refl l _, h.holds l _ hold⟩

/-- Two steps, the second of which may rely on what the first one gives. -/
theorem Runs.combine {x : m α} {f : α → m β} {out : β → List Fact} (hx : Runs before' x after)
    [h : Entails before before'] (hf : ∀ s a t, Ends x s a t → Runs (after a ++ before) (f a) out) :
    Runs before (x >>= f) out := by
  intro l s r u sound hold ends
  obtain ⟨a, t, endsX, endsF⟩ := Steps.ends_bind ends
  obtain ⟨l1, sound1, grows1, same1, hold1⟩ := hx l s a t sound (h.holds l _ hold) endsX
  have both : Fact.AllHold l1 (World.builder t) (after a ++ before) := by
    intro φ hφ
    rcases mem_append.1 hφ with hφ | hφ
    · exact hold1 φ hφ
    · exact (hold φ hφ).mono grows1
  obtain ⟨l2, sound2, grows2, same2, hold2⟩ := hf s a t endsX l1 t r u sound1 both endsF
  exact ⟨l2, sound2, grows1.trans grows2, World.same_trans same1 same2, hold2⟩

theorem Runs.bind {x : m α} {f : α → m β} {out : β → List Fact} (hx : Runs before' x after)
    [h : Entails before before'] (hf : ∀ a, Runs (after a ++ before) (f a) out) :
    Runs before (x >>= f) out := hx.combine fun _ a _ _ => hf a

theorem Runs.next {x : m α} {f : α → m β} {out : β → List Fact} (hx : Runs before x after)
    (hf : ∀ a, Runs (after a ++ before) (f a) out) : Runs before (x >>= f) out :=
  .bind hx hf

/-- A step as the last one of several: fewer facts are needed before, and those from before still
hold after. -/
theorem Runs.last {x : m α} {out : α → List Fact} (hx : Runs before' x out)
    [p : Entails before before'] [q : ∀ a, Entails (out a ++ before) (after a)] :
    Runs before x after := by
  intro l s a t sound hold ends
  obtain ⟨l', sound', grows, same, hold'⟩ := hx l s a t sound (p.holds l _ hold) ends
  refine ⟨l', sound', grows, same, (q a).holds l' _ fun φ hφ => ?_⟩
  rcases mem_append.1 hφ with hφ | hφ
  · exact hold' φ hφ
  · exact (hold φ hφ).mono grows

theorem Runs.learn {x : m α} (φ : Fact) (h : Gives before φ) (hx : Runs (φ :: before) x after) :
    Runs before x after :=
  fun l s a t sound hold ends => hx l s a t sound
    (forall_mem_cons.2 ⟨h.holds l _ hold, hold⟩) ends

theorem Runs.learnAll {x : m α} (h : Entails before facts) (hx : Runs (facts ++ before) x after) :
    Runs before x after :=
  fun l s a t sound hold ends => hx l s a t sound
    (fun φ hφ => (mem_append.1 hφ).elim (h.holds l _ hold φ) (hold φ)) ends

/-- A step that is made only under a condition, and what follows in either case. -/
theorem Runs.guard {_ : Decidable c} {x : m PUnit} {f : PUnit → m β} {out : β → List Fact}
    (hx : c → Runs before' x fun _ => []) (hf : Runs before (f ⟨⟩) out)
    [h : Entails before before'] : Runs before (if c then x >>= f else f ⟨⟩) out := by
  split
  · exact .bind (hx ‹c›) fun _ => hf.last
  · exact hf

theorem Runs.abort {x : m α} {f : α → m β} {out : β → List Fact} (fails : ∀ s a t, ¬ Ends x s a t) :
    Runs before (x >>= f) out := by
  intro l s r t _ _ ends
  obtain ⟨a, u, endsX, -⟩ := Steps.ends_bind ends
  exact absurd endsX (fails s a u)

theorem Runs.of_not_ends {x : m α} (h : ∀ s a t, ¬ Ends x s a t) : Runs before x after :=
  fun _ s a t _ _ ends => absurd ends (h s a t)

theorem Runs.mapM {f : α → m β} {list : List α} (out : β → List Fact)
    (h : ∀ a ∈ list, Runs before (f a) out) [LawfulMonad m] :
    Runs before (list.mapM f) fun rs => rs.flatMap out := by
  induction list with
  | nil => simpa using Runs.pure (h := entails_nil)
  | cons a rest ih =>
    rw [mapM_cons]
    refine .bind (h a mem_cons_self) fun r => ?_
    refine .bind (ih fun c hc => h c (mem_cons_of_mem a hc)) fun rs => ?_
    exact .pure (h := entails_append.2 ⟨inferInstance, .left (h := entails_refl)⟩)

theorem Runs.mapFact {f : α → m β} {list : List α} (fact : β → Fact)
    (h : ∀ a ∈ list, Runs before (f a) fun r => [fact r]) [LawfulMonad m] :
    Runs before (list.mapM f) fun rs => rs.map fact := by
  simpa only [map_eq_flatMap] using Runs.mapM (fun r => [fact r]) h

theorem Runs.forM {f : α → m PUnit} {list : List α}
    (h : ∀ a ∈ list, Runs before (f a) fun _ => []) [LawfulMonad m] :
    Runs before (list.forM f) fun _ => [] := by
  induction list with
  | nil => exact Runs.pure
  | cons a rest ih =>
    exact .bind (h a mem_cons_self) fun _ =>
      (ih fun c hc => h c (mem_cons_of_mem a hc)).last

theorem Runs.optionForM {f : α → m PUnit} {o : Option α}
    (h : ∀ a ∈ o, Runs before (f a) fun _ => []) : Runs before (o.forM f) fun _ => [] := by
  cases o with
  | none => exact Runs.pure
  | some a => exact h a rfl

theorem Runs.foldlM {f : β → α → m β} {out : β → List Fact} {list : List α} {init : β}
    (h : ∀ acc, ∀ a ∈ list, Runs (out acc ++ before) (f acc a) out)
    [i : Entails before (out init)] : Runs before (list.foldlM f init) out := by
  induction list generalizing init before with
  | nil => exact Runs.pure
  | cons a rest ih =>
    rw [foldlM_cons]
    refine .bind (h init a mem_cons_self) fun acc => ?_
    refine ih fun acc' c hc => ?_
    exact (h acc' c (mem_cons_of_mem a hc)).last

end Runs

/-! ## Steps inside larger steps -/

/-- Building steps as steps of another kind: they change the builder inside and nothing else. -/
class Embeds (m n : Type → Type) (σ : outParam Type) [Monad m] [Monad n] [MonadLiftT m n]
    [Steps m Builder] [Steps n σ] [World σ] where
  ends_lift : ∀ {α : Type} {c : m α} {s t : σ} {a : α}, Ends (liftM c : n α) s a t →
    ∃ b, Ends c (World.builder s) a b ∧ t = World.replace s b
  lift_ends : ∀ {α : Type} {c : m α} {s : σ} {a : α} {b : Builder}, Ends c (World.builder s) a b →
    Ends (liftM c : n α) s a (World.replace s b)
  fails_lift : ∀ {α : Type} {c : m α} {s : σ} {e : Failure}, Fails (liftM c : n α) s e →
    Fails c (World.builder s) e
  lift_fails : ∀ {α : Type} {c : m α} {s : σ} {e : Failure}, Fails c (World.builder s) e →
    Fails (liftM c : n α) s e
  sound : ∀ {l : Ledger} {s : σ}, World.Sound l s → l.strict → (World.builder s).Sound l
  sound_replace : ∀ {l l' : Ledger} {s : σ} {b : Builder}, World.Sound l s →
    (l'.strict → b.Sound l') → (World.builder s).Grows l l' b →
    Builder.Same l (World.builder s) l' b →
    World.Sound l' (World.replace s b) ∧ World.Same l s l' (World.replace s b)

theorem ends_lift (m : Type → Type) {n : Type → Type} [Monad m] [Monad n] [MonadLiftT m n]
    [Steps m Builder] [Steps n σ] [World σ] [Embeds m n σ] {c : m α} {s t : σ} {a : α}
    (h : Ends (liftM c : n α) s a t) : ∃ b, Ends c (World.builder s) a b ∧ t = World.replace s b :=
  Embeds.ends_lift h

/-- The builder goes on, and the pointer types for references and the constructs around the current
place may change. -/
theorem State.Sound.update (h : s.Sound l)
    (hs : l.strict) (hb : b.Sound l') (g : s.builder.Follows l l' b) (symbols : l'.bound = l.bound)
    (typed : l'.typed = l.typed)
    (found : ∀ id r, references.lookup id = some r → b.Global l' r.type ∧ l'.referenced id)
    (tracks : l'.Tracks references) (jumps : b.block.isSome → ∀ scope ∈ scopes, ∀ t ∈ scope.labels,
      b.IsLabel l' t ∧ t < b.output.bound ∧ ∀ x, l'.avail t x → b.Known l' x) :
    State.Sound l' { s with builder := b, references, scopes } where
  builder := hb
  records :=
    have r := h.records.mono g hs
    ⟨r.bindings, r.signatures, r.structTypes, found, r.pairTypes⟩
  globals := by
    rw [g.free, g.program, g.inFunction]
    exact h.globals
  symbols x hx := h.symbols x (symbols ▸ hx)
  typed id := by
    rw [typed]
    exact h.typed id
  members id hid d hd m hm := by
    rw [g.program] at hd hm
    exact (h.members id hid d hd m hm).mono g hs
  tracks := tracks
  underway id hid := by
    rw [g.program, g.underway]
    exact h.underway id hid
  scopes := jumps

theorem State.Sound.refer (h : s.Sound l) (hs : l.strict)
    (hb : b.Sound l') (g : s.builder.Grows l l' b) (symbols : l'.bound = l.bound)
    (typed : l'.typed = l.typed)
    (found : ∀ id r, references.lookup id = some r → b.Global l' r.type ∧ l'.referenced id)
    (tracks : l'.Tracks references) : State.Sound l' { s with builder := b, references } := by
  refine h.update hs hb g.toFollows symbols typed found tracks fun isOpen scope hscope t ht => ?_
  have wasOpen : s.builder.block.isSome := g.opened ▸ isOpen
  obtain ⟨label, below, avail⟩ := h.scopes wasOpen scope hscope t ht
  refine ⟨g.label hs t label, Nat.lt_of_lt_of_le below g.bound, fun x hx => ?_⟩
  exact g.known hs x (avail x ((g.avail hs t below) ▸ hx))

theorem Ledger.Tracks.mono {b' : Builder} (h : l.Tracks references)
    (g : b.Follows l l' b') (same : l.Same l') : l'.Tracks references := by
  refine ⟨fun id hid => h.referenced id (same.referenced ▸ hid), fun x hx => ?_,
    fun id x hx => (same.pointers x).2 (h.pending id x hx), h.single⟩
  rw [g.program, g.underway, same.typed]
  exact h.announced x ((same.pointers x).1 hx)

theorem State.Sound.move (h : s.Sound l)
    (hs : l.strict) (hb : b.Sound l') (g : s.builder.Follows l l' b) (same : l.Same l')
    (jumps : b.block.isSome → ∀ scope ∈ scopes, ∀ t ∈ scope.labels,
      b.IsLabel l' t ∧ t < b.output.bound ∧ ∀ x, l'.avail t x → b.Known l' x) :
    State.Sound l' { s with builder := b, scopes } :=
  h.update hs hb g same.symbols same.typed (h.records.mono g hs).references
    (h.tracks.mono g same) jumps

theorem State.Sound.replace (hs : l.strict) (h : s.Sound l)
    (hb : b.Sound l') (g : s.builder.Grows l l' b) (same : l.Same l') :
    State.Sound l' { s with builder := b } :=
  h.refer hs hb g same.symbols same.typed (h.records.mono g.toFollows hs).references
    (h.tracks.mono g.toFollows same)

instance buildEmbedsEmit : Embeds Emit Build Builder where
  ends_lift {_ c s t a} h := by
    cases h
    exact ⟨_, rfl, rfl⟩
  lift_ends {_ c s a b} h := by
    obtain ⟨rfl, rfl⟩ : a = (c.run s).1 ∧ b = (c.run s).2 := Prod.mk.inj h.symm
    rfl
  fails_lift h := by
    obtain ⟨t, h⟩ := h
    cases h
  lift_fails h := h.elim
  sound h := h
  sound_replace _ hb _ same := ⟨hb, same⟩

instance codegenEmbedsBuild : Embeds Build Codegen State where
  ends_lift {_ c s t a} h := by
    change (match c s.builder with
      | .ok a b => EStateM.Result.ok a { s with builder := b }
      | .error e b => .error e { s with builder := b }) = _ at h
    split at h
    · cases h
      exact ⟨_, ‹_›, rfl⟩
    · cases h
  lift_ends {_ c s a b} h := by
    have result : c s.builder = .ok a b := h
    change (match c s.builder with
      | .ok a b => EStateM.Result.ok a { s with builder := b }
      | .error e b => .error e { s with builder := b }) = _
    rw [result]
    rfl
  fails_lift {_ c s e} h := by
    obtain ⟨t, h⟩ := h
    change (match c s.builder with
      | .ok a b => EStateM.Result.ok a { s with builder := b }
      | .error e b => .error e { s with builder := b }) = _ at h
    split at h
    · cases h
    · cases h
      exact ⟨_, ‹_›⟩
  lift_fails {_ c s e} h := by
    obtain ⟨t, h⟩ := h
    have result : c s.builder = .error e t := h
    refine ⟨{ s with builder := t }, ?_⟩
    change (match c s.builder with
      | .ok a b => EStateM.Result.ok a { s with builder := b }
      | .error e b => .error e { s with builder := b }) = _
    rw [result]
  sound h hs := (h hs).builder
  sound_replace h hb g same := by
    refine ⟨fun hs' => ?_, rfl, rfl, rfl, same.emits.mono (by simp)⟩
    have hs := g.strict ▸ hs'
    exact (h hs).replace hs (hb hs') g same.toSame

instance codegenEmbedsEmit : Embeds Emit Codegen State where
  ends_lift {_ c s t a} h := by
    cases h
    exact ⟨_, rfl, rfl⟩
  lift_ends {_ c s a b} h := by
    obtain ⟨rfl, rfl⟩ : a = (c.run s.builder).1 ∧ b = (c.run s.builder).2 := Prod.mk.inj h.symm
    rfl
  fails_lift h := by
    obtain ⟨t, h⟩ := h
    cases h
  lift_fails h := h.elim
  sound h hs := (h hs).builder
  sound_replace h hb g same := codegenEmbedsBuild.sound_replace h hb g same

theorem Runs.up {n : Type → Type} [Monad m] [Monad n] [MonadLiftT m n]
    [Steps m Builder] [Steps n σ] [World σ] [Embeds m n σ] {before : List Fact} {c : m α}
    {after : α → List Fact} (h : Runs before c after) : Runs before (liftM c : n α) after := by
  intro l s a t sound hold ends
  obtain ⟨b, endsC, rfl⟩ := ends_lift m ends
  have soundB : World.Sound l (World.builder s) := Embeds.sound (m := m) (n := n) sound
  obtain ⟨l', sound', grows, same, hold'⟩ := h l _ a b soundB hold endsC
  obtain ⟨sound'', same''⟩ := Embeds.sound_replace (m := m) (n := n) sound sound' grows same
  refine ⟨l', sound'', ?_, same'', ?_⟩
  · rw [World.builder_replace]
    exact grows
  · rw [World.builder_replace]
    exact hold'

section Basic

variable {before : List Fact} {α : Type} {after : α → List Fact} {span : Span}

theorem Runs.getEmit : Runs [] (get : Emit Builder) fun b => [.tables b] := by
  intro l s a t sound hold ends
  cases ends
  exact ⟨l, sound, .refl l s, World.same_refl l s,
    fun φ hφ => mem_singleton.1 hφ ▸ Builder.Sound.tables sound⟩

theorem Runs.getBuild : Runs [] (get : Build Builder) fun b => [.tables b] := by
  intro l s a t sound hold ends
  cases ends
  exact ⟨l, sound, .refl l s, World.same_refl l s,
    fun φ hφ => mem_singleton.1 hφ ▸ Builder.Sound.tables sound⟩

theorem Runs.getState : Runs [] (get : Codegen State) fun s => [.records s, .tables s.builder] := by
  intro l s a t sound hold ends
  cases ends
  refine ⟨l, sound, .refl l _, World.same_refl l s, fun φ hφ => ?_⟩
  rcases mem_cons.1 hφ with rfl | hφ
  · exact fun hs => (sound hs).records
  · exact mem_singleton.1 hφ ▸ Builder.Sound.tables fun hs => (sound hs).builder

theorem Runs.getScopes (p : Program) (xs : List SymbolId) : Runs [.body p xs] (get : Codegen State)
      fun s => s.scopes.flatMap fun scope => scope.labels.map .target := by
  intro l s a t sound hold ends
  cases ends
  refine ⟨l, sound, .refl l _, World.same_refl l s, fun φ hφ => ?_⟩
  obtain ⟨scope, hscope, hφ⟩ := mem_flatMap.1 hφ
  obtain ⟨label, hlabel, rfl⟩ := mem_map.1 hφ
  exact fun hs => (sound hs).scopes (hold _ mem_cons_self).1 scope hscope label hlabel

theorem Runs.builder : Runs [] Codegen.builder fun b => [.tables b] :=
  .bind .getState fun _ => .pure

theorem not_ends_failAt (s : State) (a : α) (s' : State) :
    ¬ Ends (Codegen.failAt span cause : Codegen α) s a s' := fun h => by cases h

theorem Runs.failBuild : Runs before (Build.fail cause : Build α) after :=
  .of_not_ends fun _ _ _ h => by cases h

theorem Runs.fail : Runs before (Codegen.fail cause : Codegen α) after :=
  .of_not_ends fun _ _ _ h => by cases h

theorem Runs.failAt : Runs before (Codegen.failAt span cause : Codegen α) after :=
  .of_not_ends not_ends_failAt

end Basic

end ShaderGen
