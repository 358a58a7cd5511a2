import ShaderGen.Proofs.Control.Program

/-!
# Whole programs keep to their ledger

Functions are declared, symbols at module scope are bound, and then the functions are defined one
after the other. `State.Awaits` is what holds between these steps: the ids owed are those of the
functions still to be defined, and of announced pointers. When everything has been defined, nothing
is owed (`Program.EndsIn.settled`).

What a symbol of one function is bound to means nothing to another function. It is enough that no
two functions use such a symbol, and that everything at module scope is bound before the first of
them (`Program.Separates`).
-/

namespace ShaderGen

open Builder List Instruction
open Steps (Ends ends_bind ends_then)

variable {d : FunctionDecl} {f : FunctionId} {x : SymbolId} {u : Unit} {p : Program} {b : Builder}
  {before : List Fact} {o : Options} {free : Prop} {α : Type}

/-! ## The functions that are emitted -/

theorem nodup_insertNew {found : List Nat} (h : found.Nodup) (a : Nat) :
    (insertNew found a).Nodup := by
  unfold insertNew
  split
  · exact h
  · rename_i absent
    have absent : a ∉ found := by simpa using absent
    exact nodup_append.2 ⟨h, nodup_singleton a, fun c hc d hd => by
      rintro rfl
      exact absent (mem_singleton.1 hd ▸ hc)⟩

namespace Program

variable {p : Program}

theorem nodup_foldl_explore {fuel : Nat}
    (h : ∀ found f, found.Nodup → (p.explore fuel found f).Nodup) (fs : List FunctionId)
    {found : List FunctionId} (nodup : found.Nodup) : (fs.foldl (p.explore fuel) found).Nodup := by
  induction fs generalizing found with
  | nil => exact nodup
  | cons f fs ih => exact ih (h found f nodup)

theorem nodup_explore (p : Program) (fuel : Nat) (found : List FunctionId) (f : FunctionId)
    (h : found.Nodup) : (p.explore fuel found f).Nodup := by
  induction fuel generalizing found f with
  | zero => exact nodup_insertNew h f
  | succ fuel ih =>
    unfold explore
    split
    · exact h
    · rename_i absent
      have nodup : (found ++ [f]).Nodup := by
        have := nodup_insertNew h f
        rwa [insertNew, if_neg absent] at this
      exact nodup_foldl_explore ih _ nodup

theorem nodup_emitted (p : Program) (o : Options) : (p.emitted o).Nodup := by
  unfold emitted
  split
  · refine nodup_cons.2 ⟨by simp, nodup_range.filter _⟩
  · exact nodup_foldl_explore (nodup_explore p _) _ (nodup_singleton _)

/-! ## Symbols that stay apart -/

/-- The symbols that a function uses. The entry function runs the initializers. -/
def symbolsOf (p : Program) (f : FunctionId) : List SymbolId :=
  match p.function? f with
  | some d => d.parameters ++ allSymbols (p.prelude f ++ d.body)
  | none => []

/-- Everything with module-scope storage is listed, and no parameter or local variable is used by
two functions. -/
structure Separates (p : Program) : Prop where
  listed : ∀ x d, p.symbol? x = some d → d.type.qualifier.storage.isLocal = false → x ∈ p.globals
  apart : ∀ f g x, x ∈ p.symbolsOf f → x ∈ p.symbolsOf g → p.IsPrivate x → f = g

theorem Separates.withOptions (h : p.Separates) (o : Options) : (p.withOptions o).Separates :=
  ⟨h.listed, h.apart⟩

theorem Separates.mem_globals (h : p.Separates) {d : Symbol} (hd : p.symbol? x = some d)
    (global : p.isGlobal x d) : x ∈ p.globals := by
  rcases Bool.or_eq_true _ _ ▸ global with listed | storage
  · simpa using listed
  · exact h.listed x d hd (by simpa using storage)

theorem not_isLocal_of_mem_globals (h : x ∈ p.globals) : ¬ p.IsLocal x := by
  rintro ⟨d, -, -, -, notGlobal⟩
  simp [isGlobal, h] at notGlobal

end Program

theorem mem_allSymbols {ns : List Node} {n : Node} (h : n ∈ ns) (hx : x ∈ n.symbols) :
    x ∈ allSymbols ns := by
  induction ns with
  | nil => cases h
  | cons m rest ih =>
    rw [allSymbols, mem_append]
    rcases mem_cons.1 h with rfl | h
    · exact .inl hx
    · exact .inr (ih h)

/-! ## Crossing the border of a function -/

section Cross

variable {l l' : Ledger} {s : State} {b b' : Builder}

theorem Binding.Fits.cross (crosses : b.Crosses l l' b') (seen : ∀ x, l.seen x → l'.seen x)
    (unused : ¬ l.free → l.program.IsPrivate x → l.seen x → ¬ l'.uses x) {binding : Binding}
    (fits : binding.Fits l b x) : binding.Fits l' b' x := by
  have fixed : l.program.IsPrivate x → l.seen x → l'.uses x → ∀ y, b'.Fixed l' y := by
    intro own known used y
    by_cases free : l.free
    · exact .inl (.inr (.inr (.inr (.inr (.inr (crosses.free ▸ free))))))
    · exact absurd used (unused free own known)
  cases binding with
  | object pointer type storage =>
    obtain ⟨global, placed, shared | ⟨own, known, -⟩⟩ := fits
    · exact ⟨crosses.global _ global, crosses.placed _ placed, .inl (crosses.shared _ shared)⟩
    · exact ⟨crosses.global _ global, crosses.placed _ placed,
        .inr ⟨crosses.program ▸ own, seen x known, fun u => fixed own known u _⟩⟩
  | value id type =>
    obtain ⟨global, shared | ⟨parameter, own, known, -⟩⟩ := fits
    · exact ⟨crosses.global _ global, .inl (crosses.global _ shared)⟩
    · exact ⟨crosses.global _ global, .inr ⟨crosses.parameters _ parameter, crosses.program ▸ own,
        seen x known, fun u => fixed own known u _⟩⟩

theorem Ledger.Tracks.cross {references : List (StructId × ReferencePointer)}
    (h : l.Tracks references) (crosses : b.Crosses l l' b') : l'.Tracks references := by
  have same := crosses.same
  refine ⟨fun id hid => h.referenced id (same.referenced ▸ hid), fun x hx => ?_,
    fun id x hx => (same.pointers x).2 (h.pending id x hx), h.single⟩
  rw [crosses.program, crosses.underway, same.typed]
  exact h.announced x ((same.pointers x).1 hx)

theorem State.Sound.cross (h : s.Sound l) (hb : b.Sound l') (crosses : s.builder.Crosses l l' b)
    (seen : ∀ x, l.seen x → l'.seen x)
    (unused : ¬ l.free → ∀ x, l.program.IsPrivate x → l.seen x → ¬ l'.uses x)
    (globals : ¬ l.free → b.inFunction = true → ∀ x d, l.program.symbol? x = some d →
      l.program.isGlobal x d → l.bound x) (scopes : s.scopes = []) :
    State.Sound l' { s with builder := b } where
  builder := hb
  records :=
    { bindings := fun x binding hx =>
        ⟨(h.records.bindings x binding hx).1.cross crosses seen fun strict => unused strict x,
          crosses.same.symbols ▸ (h.records.bindings x binding hx).2⟩
      signatures := fun f signature hf => by
        obtain ⟨id, type, parameters⟩ := h.records.signatures f signature hf
        exact ⟨id.imp (crosses.shared _) (crosses.placed _), crosses.global _ type,
          fun t ht => crosses.global t (parameters t ht)⟩
      structTypes := fun key type hk =>
        ⟨(h.records.structTypes key type hk).1.imp (crosses.global _)
            fun ⟨i, hi, rest⟩ => ⟨i, crosses.declared i hi, rest⟩,
          crosses.same.typed ▸ (h.records.structTypes key type hk).2⟩
      references := fun id r hr =>
        ⟨crosses.global _ (h.records.references id r hr).1,
          crosses.same.referenced ▸ (h.records.references id r hr).2⟩
      pairTypes := fun part type hp => crosses.global _ (h.records.pairTypes part type hp) }
  globals := by
    by_cases free : l.free
    · exact .inl (crosses.free ▸ free)
    · refine .inr fun inside x d hd global => ?_
      rw [crosses.program] at hd global
      exact h.symbols x (globals free inside x d hd global)
  symbols x hx := h.symbols x (crosses.same.symbols ▸ hx)
  typed id := by
    rw [crosses.same.typed]
    exact h.typed id
  members id hid d hd m hm := by
    rw [crosses.program] at hd hm
    have covers := h.members id hid d hd m hm
    exact ⟨fun id hid => crosses.same.referenced ▸ covers.reference id hid,
      fun id hid => crosses.same.typed ▸ covers.struct id hid,
      fun x hx => crosses.same.symbols ▸ covers.length x hx⟩
  tracks := h.tracks.cross crosses
  underway id hid := by
    rw [crosses.program, crosses.underway]
    exact h.underway id hid
  scopes _ scope hscope := by
    rw [show s.scopes = [] from scopes] at hscope
    cases hscope

end Cross

/-! ## Between functions -/

/-- Between functions: those in `pending` are declared and still to be defined, those in `done` are
complete. Unless functions may use everything, they share no variables. -/
structure State.Awaits (p : Program) (free : Prop) (l : Ledger) (s : State)
    (pending done : List FunctionId) : Prop where
  sound : s.Sound l
  strict : l.strict
  mode : l.free = free
  separates : ¬ free → p.Separates
  program : l.program = p
  outside : s.builder.inFunction = false
  closed : s.builder.block = none
  scopes : s.scopes = []
  labels : ∀ x, (x, Role.label) ∉ l.owed
  still : ∀ id, ¬ l.underway id
  unused : ∀ x, ¬ l.uses x
  seen : ∀ x, l.seen x → ∃ f ∈ done, x ∈ p.symbolsOf f
  owed : ∀ f ∈ pending, ∃ signature, s.signatures.lookup f = some signature ∧
    (signature.id, Role.function) ∈ l.owed
  declared : ∀ x, (x, Role.function) ∈ l.owed →
    ∃ f ∈ pending, ∃ signature, s.signatures.lookup f = some signature ∧ signature.id = x
  single : ∀ f ∈ pending, ∀ g ∈ pending, ∀ a b, s.signatures.lookup f = some a →
    s.signatures.lookup g = some b → a.id = b.id → f = g

namespace State.Awaits

variable {p : Program} {free : Prop} {l : Ledger} {s t : State} {pending done : List FunctionId}

theorem grow {l' : Ledger} (h : s.Awaits p free l pending done) (sound : World.Sound l' t)
    (grows : s.builder.Grows l l' t.builder) (same : s.Same t) : t.Awaits p free l'
    pending done where
  strict := grows.strict ▸ h.strict
  mode := grows.free.trans h.mode
  separates := h.separates
  sound := sound (grows.strict ▸ h.strict)
  program := grows.program.trans h.program
  outside := grows.inFunction.trans h.outside
  closed := by simpa [h.closed] using grows.opened
  scopes := same.scopes.trans h.scopes
  labels x hx := h.labels x ((grows.owed h.strict x).1 hx)
  still := grows.underway ▸ h.still
  unused := grows.uses ▸ h.unused
  seen := grows.seen ▸ h.seen
  owed f hf := by
    obtain ⟨signature, found, owed⟩ := h.owed f hf
    exact ⟨signature, same.signatures ▸ found, (grows.functions h.strict _).2 owed⟩
  declared x hx := by
    rw [same.signatures]
    exact h.declared x ((grows.functions h.strict x).1 hx)
  single := same.signatures ▸ h.single

theorem run {c : Codegen α} {after : α → List Fact} {a : α}
    (h : s.Awaits p free l pending done) (runs : Runs before c after)
    (hold : Fact.AllHold l s.builder before) (ends : Ends c s a t) :
    ∃ l', t.Awaits p free l' pending done ∧ (∀ x, l.bound x → l'.bound x) ∧
      Fact.AllHold l' t.builder (after a) := by
  obtain ⟨l', sound, grows, same, hold'⟩ := runs l s a t (fun _ => h.sound) hold ends
  exact ⟨l', h.grow sound grows same, grows.symbols h.strict, hold'⟩

theorem programHolds (h : s.Awaits p free l pending done) : Fact.AllHold l s.builder [.program p] :=
  Fact.allHold_cons (fun _ => h.program) Fact.allHold_nil

end State.Awaits

/-- What a step inside of a function leads to, whatever it does to the return type. -/
structure State.Continues (l : Ledger) (s : State) (l' : Ledger) (t : State) : Prop where
  sound : t.Sound l'
  grows : s.builder.Grows l l' t.builder
  signatures : t.signatures = s.signatures
  scopes : t.scopes = s.scopes

namespace State.Continues

variable {l1 l2 l3 : Ledger} {s1 s2 s3 : State}

theorem trans (h : s1.Continues l1 l2 s2) (g : s2.Continues l2 l3 s3) : s1.Continues l1 l3 s3 :=
  ⟨g.sound, h.grows.trans g.grows, g.signatures.trans h.signatures, g.scopes.trans h.scopes⟩

theorem of_runs {c : Codegen α} {after : α → List Fact} {a : α}
    (runs : Runs before c after) (sound : s1.Sound l1) (hs : l1.strict)
    (hold : Fact.AllHold l1 s1.builder before) (ends : Ends c s1 a s2) :
    ∃ l2, s1.Continues l1 l2 s2 := by
  obtain ⟨l2, sound2, grows, same, -⟩ := runs l1 s1 a s2 (fun _ => sound) hold ends
  exact ⟨l2, sound2 (grows.strict ▸ hs), grows, same.signatures, same.scopes⟩

theorem setReturnType (sound : s1.Sound l1) (type : Option ShaderType) :
    s1.Continues l1 l1 { s1 with returnType := type } where
  sound := ⟨sound.builder, { sound.records with }, sound.globals, sound.symbols, sound.typed,
    sound.members, sound.tracks, sound.underway, sound.scopes⟩
  grows := .refl _ _
  signatures := rfl
  scopes := rfl

end State.Continues

namespace Codegen

variable {p : Program} {free : Prop} {l : Ledger} {s t : State} {pending done : List FunctionId}
  {fs : List FunctionId} {xs : List SymbolId}

theorem parameterTypes_runs (p : Program) (xs : List SymbolId) :
    Runs [.program p] (xs.mapM fun x => do
      let d ← p.symbol x
      parameterType p d.type) fun rs => rs.map fun r : Ident × Passing => .shared r.1 :=
  .mapFact (fun r : Ident × Passing => .shared r.1) fun _ _ =>
  Does.runs (.symbol fun d _ => (parameterType_does p d.type : Does (Quiet p) _ _ _))

theorem declareFunction_awaits (h : s.Awaits p free l pending done) (new : f ∉ pending)
    (ends : Ends (declareFunction p f) s u t) : ∃ l', t.Awaits p free l' (f :: pending) done := by
  obtain ⟨d, s0, ⟨-, rfl⟩, ends0⟩ := ends_then ends_function ends
  obtain ⟨returnType, s1, ⟨l1, h1, -, hold1⟩, ends⟩ :=
    ends_then (h.run (valueType_learns p d.returnType).runs h.programHolds) ends0
  obtain ⟨parameters, s2, passes, ends⟩ := ends_bind ends
  obtain ⟨l2, sound2, grows2, same2, hold2⟩ := parameterTypes_runs p d.parameters l1 s1 _ s2
    (fun _ => h1.sound) h1.programHolds passes
  have h2 : s2.Awaits p free l2 pending done := h1.grow sound2 grows2 same2
  have hreturn : s2.builder.Global l2 returnType :=
    grows2.global h1.strict _ (hold1 (.shared returnType) (by simp) h1.strict)
  have hparameters : ∀ r ∈ parameters, s2.builder.Global l2 r.1 := fun r hr =>
    hold2 (.shared r.1) (mem_map_of_mem hr) h2.strict
  obtain ⟨id, s3, gives, ends⟩ := ends_bind ends
  cases gives
  cases ends
  let x := s2.builder.output.bound
  let l' := l2.owe x .function fun _ => False
  have sound : s2.builder.handOut.Sound l' :=
    h2.sound.builder.owe (by simp) (fun _ => False) fun _ _ _ => False.elim
  have crosses : s2.builder.Crosses l2 l' s2.builder.handOut :=
    ⟨rfl, rfl, rfl, rfl, ⟨rfl, rfl, rfl, fun y => by simp [l', Ledger.owe]⟩, fun _ h => h,
      fun _ => .owe, fun _ => .owe, fun _ => .owe, fun _ h => h⟩
  have state := h2.sound.cross sound crosses (fun _ => id) (fun _ y _ _ => h2.unused y)
    (fun _ inside => absurd (h2.outside.symm.trans inside) (by simp)) h2.scopes
  have fresh : ∀ g ∈ pending, ∀ r, s2.signatures.lookup g = some r → r.id ≠ x := by
    intro g hg r hr same
    have placed : s2.builder.Placed l2 r.id := (h2.sound.records.signatures g r hr).1.2
    rw [same] at placed
    exact h2.sound.builder.not_placed_bound placed
  have other : ∀ g ∈ pending, ∀ r : Signature,
      ((f, r) :: s2.signatures).lookup g = s2.signatures.lookup g := by
    intro g hg r
    exact lookup_cons_of_ne (fun same : g = f => new (same ▸ hg)) r _
  refine ⟨l', ?_⟩
  exact { h2 with
    labels := fun y hy => h2.labels y (by simpa [l', Ledger.owe] using hy)
    sound :=
      { state with
        records :=
          { state.records with
            signatures := fun g r hr => by
              by_cases same : g = f
              · subst same
                rw [lookup_cons_self] at hr
                cases hr
                refine ⟨⟨.inr (.inr (.inr (.inl mem_cons_self))), .inl mem_cons_self⟩,
                  crosses.global _ hreturn, ?_⟩
                intro y hy
                obtain ⟨r, hr, rfl⟩ := mem_map.1 hy
                exact crosses.global _ (hparameters r hr)
              · rw [lookup_cons_of_ne same] at hr
                exact state.records.signatures g r hr } }
    owed := fun g hg => by
      rcases mem_cons.1 hg with rfl | hg
      · exact ⟨_, lookup_cons_self, mem_cons_self⟩
      · obtain ⟨r, found, owed⟩ := h2.owed g hg
        exact ⟨r, (other g hg _).trans found, mem_cons_of_mem _ owed⟩
    declared := fun y hy => by
      rcases mem_cons.1 hy with same | hy
      · cases same
        exact ⟨f, mem_cons_self, _, lookup_cons_self, rfl⟩
      · obtain ⟨g, hg, r, found, same⟩ := h2.declared y hy
        exact ⟨g, mem_cons_of_mem _ hg, r, (other g hg _).trans found, same⟩
    single := fun g hg k hk a b ha hb same => by
      rcases mem_cons.1 hg with hg | hg <;> rcases mem_cons.1 hk with hk | hk
      · exact hg.trans hk.symm
      · rw [hg, lookup_cons_self] at ha
        rw [other k hk] at hb
        cases ha
        exact absurd same.symm (fresh k hk b hb)
      · rw [hk, lookup_cons_self] at hb
        rw [other g hg] at ha
        cases hb
        exact absurd same (fresh g hg a ha)
      · rw [other g hg] at ha
        rw [other k hk] at hb
        exact h2.single g hg k hk a b ha hb same }

theorem declareFunctions_awaits (h : s.Awaits p free l pending done)
    (nodup : (fs ++ pending).Nodup) (ends : Ends (fs.forM (declareFunction p)) s u t) :
    ∃ l' pending', t.Awaits p free l' pending' done ∧ pending'.Perm (fs ++ pending) := by
  induction fs generalizing s l pending with
  | nil =>
    cases ends
    exact ⟨l, pending, h, .refl _⟩
  | cons f fs ih =>
    obtain ⟨_, s1, first, rest⟩ := ends_bind ends
    obtain ⟨new, nodup⟩ := nodup_cons.1 nodup
    obtain ⟨l1, h1⟩ := declareFunction_awaits h (fun hf => new (mem_append_right _ hf)) first
    have perm : (fs ++ f :: pending).Perm (f :: (fs ++ pending)) := perm_middle
    obtain ⟨l', pending', h', perm'⟩ := ih h1 (perm.nodup_iff.2 (nodup_cons.2 ⟨new, nodup⟩)) rest
    exact ⟨l', pending', h', perm'.trans perm⟩

theorem bindGlobals_awaits (h : s.Awaits p free l pending done)
    (listed : ∀ x ∈ xs, x ∈ p.globals) (ends : Ends (xs.forM fun x => do
      let _ ← bindingOf p (typer p) x) s u t) :
    ∃ l', t.Awaits p free l' pending done ∧ (∀ x, l.bound x → l'.bound x) ∧
    ∀ x ∈ xs, l'.bound x := by
  induction xs generalizing s l with
  | nil =>
    cases ends
    exact ⟨l, h, fun _ => id, by simp⟩
  | cons x xs ih =>
    obtain ⟨_, s1, ⟨binding, s2, binds, done⟩, rest⟩ := ends_then ends_bind ends
    cases done
    have notLocal := Program.not_isLocal_of_mem_globals (listed x mem_cons_self)
    obtain ⟨l1, h1, kept, hold⟩ := h.run (bindingOf_runs_of (typer_learns p) x (by simp)
      fun own => absurd own notLocal) h.programHolds binds
    have bound : l1.bound x := hold (.bound x) (by simp) h1.strict
    obtain ⟨l', h', kept', found⟩ := ih h1 (fun y hy => listed y (mem_cons_of_mem _ hy)) rest
    refine ⟨l', h', fun y hy => kept' y (kept y hy), fun y hy => ?_⟩
    rcases mem_cons.1 hy with rfl | hy
    · exact kept' _ bound
    · exact found y hy

/-! ## Bodies of functions -/

theorem runInitializers_runs (h : ∀ n ∈ p.prelude f, ∀ x ∈ n.symbols, x ∈ xs) :
    Runs [.body p xs] (runInitializers p f) fun _ => [] := by
  unfold runInitializers Program.prelude at *
  split
  · rename_i entry
    rw [if_pos entry] at h
    exact .forM fun n hn => (statement_does (h n hn)).runs
  · exact .pure

/-- What is known of the ids of parameters. -/
def parameterFacts (ids : List Ident) : List Fact :=
  ids.flatMap fun id => [.fixed id, .length id]

theorem functionCode_continues {ids : List Ident} {passing : List Passing}
    (hd : p.function? f = some d) (sound : s.Sound l) (hs : l.strict)
    (hold : Fact.AllHold l s.builder (.body p (p.symbolsOf f) :: parameterFacts ids))
    (ends : Ends (functionCode p f d ((d.parameters.zip ids).zip passing)) s u t) :
    ∃ l', s.Continues l l' t := by
  have used : ∀ n, n ∈ p.prelude f ++ d.body → ∀ x ∈ n.symbols, x ∈ p.symbolsOf f :=
    fun n hn x hx => by simp [Program.symbolsOf, hd, mem_allSymbols hn hx]
  have parameters : Runs (.body p (p.symbolsOf f) :: parameterFacts ids)
      (((d.parameters.zip ids).zip passing).forM fun q => bindParameter p q.1.1 q.1.2 q.2)
      fun _ => [] := by
    refine .forM fun q hq => ?_
    obtain ⟨⟨x, id⟩, passing⟩ := q
    obtain ⟨hx, hid⟩ := of_mem_zip (of_mem_zip hq).1
    have own : p.IsPrivate x := .inr ⟨d, mem_of_getElem? hd, hx⟩
    have found : ∀ φ ∈ [Fact.fixed id, .length id],
        φ ∈ Fact.body p (p.symbolsOf f) :: parameterFacts ids := fun φ hφ =>
      mem_cons_of_mem _ (mem_flatMap.2 ⟨id, hid, hφ⟩)
    refine (bindParameter_runs own id passing).last (p := ?_)
    simp only [entails_cons, entails_nil, and_true]
    exact ⟨inferInstance, gives_used_of_body p
      (show _ ∈ p.symbolsOf f by simp [Program.symbolsOf, hd, hx]),
      .of_mem (found _ (by simp)), .of_mem (found _ (by simp))⟩
  obtain ⟨_, s1, ⟨l1, c1⟩, ends1⟩ :=
    ends_then (State.Continues.of_runs parameters sound hs hold) ends
  have hs1 : l1.strict := c1.grows.strict ▸ hs
  have hold1 := hold.mono c1.grows
  obtain ⟨_, s2, initializes, ends2⟩ := ends_bind ends1
  obtain ⟨l2, c2⟩ := State.Continues.of_runs
    (runInitializers_runs fun n hn => used n (mem_append_left _ hn)) c1.sound hs1
    (Fact.allHold_cons (hold1 _ mem_cons_self) Fact.allHold_nil) initializes
  have hs2 : l2.strict := c2.grows.strict ▸ hs1
  have hold2 := hold1.mono c2.grows
  obtain ⟨_, s3, enters, ends3⟩ := ends_bind ends2
  cases enters
  have c3 := State.Continues.setReturnType c2.sound (some d.returnType)
  obtain ⟨_, s4, goes, leaves⟩ := ends_bind ends3
  have body : Runs [.body p (p.symbolsOf f)] (d.body.forM (statement p)) fun _ => [] :=
    .forM fun n hn => (statement_does (used n (mem_append_right _ hn))).runs
  obtain ⟨l4, c4⟩ := State.Continues.of_runs body c3.sound hs2
    (Fact.allHold_cons (hold2 _ mem_cons_self) Fact.allHold_nil) goes
  cases leaves
  exact ⟨l4, (((c1.trans c2).trans c3).trans c4).trans (.setReturnType c4.sound none)⟩

theorem endWith_follows {op : Opcode} {operands : List Operand} {b' : Builder} (sound : b.Sound l)
    (hs : l.strict) (values : ∀ x ∈ valueIds { op, operands }, b.Known l x)
    (names : labelIds { op, operands } = []) (joins : incoming { op, operands } = [])
    (ends : Ends (endWith op operands) b u b') : b'.Sound l ∧ b.Follows l l b' := by
  obtain ⟨k, hk, rfl⟩ := ends_endWith ends
  have targets : targets { op, operands } = [] :=
    eq_nil_iff_forall_not_mem.2 fun t ht => by
      have := targets_subset_labelIds _ ht
      rw [names] at this
      cases this
  refine ⟨(sound.pushed_control hs hk (.inl ⟨rfl, rfl⟩) values ?_ ?_ ?_).halted _, ?_⟩
  · simp [names]
  · simp [targets]
  · simp [joins]
  · exact (follows_pushed (Nat.le_refl _)).trans (follows_halted _)

theorem closeBody_follows {type : Ident} (sound : s.Sound l) (hs : l.strict)
    (global : s.builder.Global l type) (ends : Ends (closeBody d type) s u t) :
    ∃ l' b, t = { s with builder := b } ∧ b.Sound l' ∧ s.builder.Follows l l' b ∧ l.Same l' ∧
      ∀ x, (x, Role.label) ∈ l'.owed ↔ (x, .label) ∈ l.owed := by
  obtain ⟨live, s1, reads, ends1⟩ := ends_bind ends
  obtain rfl : s = s1 := by
    obtain ⟨_, _, gets, reads⟩ := ends_bind reads
    cases gets
    cases reads
    rfl
  split at ends1
  · obtain ⟨b, inner, rfl⟩ := ends_lift Build ends1
    obtain ⟨sound', follows⟩ := endWith_follows sound.builder hs (by simp [valueIds, ids])
      rfl rfl inner
    exact ⟨l, b, rfl, sound', follows, .refl l, fun _ => Iff.rfl⟩
  · split at ends1
    · obtain ⟨b, inner, rfl⟩ := ends_lift Build ends1
      obtain ⟨sound', follows⟩ := endWith_follows sound.builder hs (by simp [valueIds, ids])
        rfl rfl inner
      exact ⟨l, b, rfl, sound', follows, .refl l, fun _ => Iff.rfl⟩
    · obtain ⟨null, s2, ⟨c, made, rfl⟩, ends2⟩ := ends_then (ends_lift Emit) ends1
      obtain ⟨l1, sound1, grows, same, hold⟩ := (constNull_provides type).runs l s.builder null c
        (fun _ => sound.builder) (Fact.allHold_cons (fun _ => global) Fact.allHold_nil) made
      have hs1 : l1.strict := grows.strict ▸ hs
      obtain ⟨b, inner, rfl⟩ := ends_lift Build ends2
      have made : c.Global l1 null := hold (.shared null) (by simp) hs1
      have known : c.Known l1 null := .inl (.inl made.shared)
      obtain ⟨sound', follows⟩ := endWith_follows (sound1 hs1) hs1
        (by simpa [valueIds, ids] using known) rfl rfl inner
      exact ⟨l1, b, rfl, sound', grows.toFollows.trans follows, same.toSame, grows.owed hs⟩

theorem defineFunction_awaits (h : s.Awaits p free l (f :: pending) done) (new : f ∉ pending)
    (notDone : f ∉ done) (globals : ∀ x ∈ p.globals, l.bound x)
    (ends : Ends (defineFunction p f) s u t) :
    ∃ l', t.Awaits p free l' pending (f :: done) ∧ ∀ x, l.bound x → l'.bound x := by
  obtain ⟨d, s0, ⟨hd, rfl⟩, ends0⟩ := ends_then ends_function ends
  obtain ⟨signature, s0, ⟨found, rfl⟩, ends1⟩ := ends_then ends_signature ends0
  obtain ⟨ids, s1, ⟨b1, inner, rfl⟩, ends2⟩ := ends_then (ends_lift Build) ends1
  have owed : (signature.id, Role.function) ∈ l.owed := by
    obtain ⟨r, same, owed⟩ := h.owed f mem_cons_self
    exact Option.some.inj (same.symm.trans found) ▸ owed
  obtain ⟨-, hreturn, hparameters⟩ := h.sound.records.signatures f signature found
  obtain ⟨l1, begun, crosses1, uses1, seen1, functions1⟩ := ends_beginFunction
    h.sound.builder h.strict h.outside h.closed h.labels owed
    (forall_mem_cons.2 ⟨hreturn, hparameters⟩) (· ∈ p.symbolsOf f) inner
  have hs1 : l1.strict := crosses1.strict ▸ h.strict
  have state1 : State.Sound l1 { s0 with builder := b1 } := by
    refine h.sound.cross begun.sound crosses1 (fun x hx => seen1 ▸ .inl hx) ?_ ?_ h.scopes
    · intro watched x own seen uses
      obtain ⟨g, hg, hx⟩ := h.seen x seen
      rw [uses1] at uses
      have separates := h.separates (h.mode ▸ watched)
      exact notDone (separates.apart f g x uses hx (h.program ▸ own) ▸ hg)
    · intro watched _ x e he global
      rw [h.program] at he global
      exact globals x ((h.separates (h.mode ▸ watched)).mem_globals he global)
  have hold1 : Fact.AllHold l1 b1 (.body p (p.symbolsOf f) :: parameterFacts ids) := by
    refine Fact.allHold_cons ⟨begun.opened, begun.inside, fun _ => hs1, fun _ =>
      ⟨crosses1.program.trans h.program, crosses1.underway ▸ h.still, fun x hx => ?_⟩⟩ ?_
    · exact ⟨uses1 ▸ hx, seen1 ▸ .inr hx⟩
    · intro φ hφ
      obtain ⟨id, hid, hφ⟩ := mem_flatMap.1 hφ
      obtain ⟨fixed, parameter⟩ := begun.parameters id hid
      rcases mem_cons.1 hφ with rfl | hφ
      · exact fun _ => ⟨fixed, placed_of_parameter parameter⟩
      · obtain rfl := mem_singleton.1 hφ
        exact fun _ => .inr parameter
  obtain ⟨_, s2, ⟨l2, c2⟩, ends3⟩ := ends_then (functionCode_continues hd state1 hs1 hold1) ends2
  have grows2 : b1.Grows l1 l2 s2.builder := c2.grows
  have hs2 : l2.strict := grows2.strict ▸ hs1
  obtain ⟨_, s3, closes, ends4⟩ := ends_bind ends3
  obtain ⟨l3, b3, rfl, sound3, follows3, same3, labels3⟩ := closeBody_follows c2.sound hs2
    (grows2.global hs1 _ (crosses1.global _ hreturn)) closes
  have hs3 : l3.strict := follows3.strict ▸ hs2
  obtain ⟨b4, finishes, rfl⟩ := ends_lift Build ends4
  have follows : b1.Follows l1 l3 b3 := grows2.toFollows.trans follows3
  obtain ⟨code, hcode, label, below, empty⟩ := begun.code
  obtain ⟨current, hcurrent⟩ := Option.isSome_iff_exists.1 (follows.isSome_current? begun.inside)
  have noLabels : ∀ x, (x, Role.label) ∉ l3.owed := fun x hx =>
    begun.labels x ((grows2.owed hs1 x).1 ((labels3 x).1 hx))
  obtain ⟨sound4, crosses4, outside, closed⟩ := ends_endFunction sound3 hs3 hcurrent noLabels
    (follows.codeBlock.trans hcode) (follows.label hs1 code label)
    (fun x hx => empty x (follows.avail hs1 code below ▸ hx)) finishes
  have crosses : s2.builder.Crosses l2 (betweenFunctions l3) b4 :=
    (follows3.crosses hs2 same3).trans crosses4
  have seen : l3.seen = l1.seen := follows.seen
  have owedFunctions : ∀ x, (x, Role.function) ∈ l3.owed ↔
      (x, .function) ∈ l.owed ∧ x ≠ signature.id := fun x =>
    (follows.functions hs1 x).trans (functions1 x)
  have program : l3.program = p := (follows.program.trans crosses1.program).trans h.program
  refine ⟨betweenFunctions l3, ?_, fun x hx => ?_⟩
  · exact {
      sound := c2.sound.cross sound4 crosses (fun x hx => follows3.seen ▸ hx) (fun _ _ _ _ => id)
        (fun _ inside => absurd (outside.symm.trans inside) (by simp)) (c2.scopes.trans h.scopes)
      strict := hs3
      mode := (follows.free.trans crosses1.free).trans h.mode
      separates := h.separates
      program := program
      outside := outside
      closed := closed
      scopes := c2.scopes.trans h.scopes
      labels := noLabels
      still := fun id hid => h.still id (crosses1.underway ▸ follows.underway ▸ hid)
      unused := fun _ => id
      seen := fun x hx => by
        have cases : l.seen x ∨ x ∈ p.symbolsOf f := by
          have hx : l3.seen x := hx
          rwa [seen, seen1] at hx
        rcases cases with old | new
        · obtain ⟨g, hg, hx⟩ := h.seen x old
          exact ⟨g, mem_cons_of_mem _ hg, hx⟩
        · exact ⟨f, mem_cons_self, new⟩
      owed := fun g hg => by
        obtain ⟨r, hr, owed⟩ := h.owed g (mem_cons_of_mem _ hg)
        refine ⟨r, c2.signatures ▸ hr, (owedFunctions _).2 ⟨owed, fun same => new ?_⟩⟩
        have : g = f := h.single g (mem_cons_of_mem _ hg) f mem_cons_self r signature hr
          found same
        exact this ▸ hg
      declared := fun x hx => by
        obtain ⟨old, other⟩ := (owedFunctions x).1 hx
        obtain ⟨g, hg, r, hr, same⟩ := h.declared x old
        rcases mem_cons.1 hg with rfl | hg
        · exact absurd (same.symm.trans (Option.some.inj (hr.symm.trans found) ▸ rfl)) other
        · exact ⟨g, hg, r, c2.signatures ▸ hr, same⟩
      single := fun g hg k hk a b ha hb => h.single g (mem_cons_of_mem _ hg) k
        (mem_cons_of_mem _ hk) a b (c2.signatures ▸ ha) (c2.signatures ▸ hb) }
  · exact follows.symbols hs1 x (crosses1.same.symbols ▸ hx)

theorem defineFunctions_awaits (h : s.Awaits p free l pending done)
    (perm : pending.Perm fs) (nodup : (fs ++ done).Nodup) (globals : ∀ x ∈ p.globals, l.bound x)
    (ends : Ends (fs.forM (defineFunction p)) s u t) : ∃ l' done', t.Awaits p free l' [] done' := by
  induction fs generalizing s l pending done with
  | nil =>
    cases ends
    obtain rfl := perm.eq_nil
    exact ⟨l, done, h⟩
  | cons f fs ih =>
    obtain ⟨_, s1, first, rest⟩ := ends_bind ends
    obtain ⟨new, nodup'⟩ := nodup_cons.1 nodup
    have h' : s.Awaits p free l (f :: fs) done :=
      { h with
        owed := fun g hg => h.owed g (perm.mem_iff.2 hg)
        declared := fun x hx => by
          obtain ⟨g, hg, rest⟩ := h.declared x hx
          exact ⟨g, perm.mem_iff.1 hg, rest⟩
        single := fun g hg k hk => h.single g (perm.mem_iff.2 hg) k (perm.mem_iff.2 hk) }
    obtain ⟨l1, h1, kept⟩ := defineFunction_awaits h'
      (fun hf => new (mem_append_left _ hf)) (fun hf => new (mem_append_right _ hf))
      globals first
    have perm' : (fs ++ f :: done).Perm (f :: (fs ++ done)) := perm_middle
    exact ih h1 (.refl _) (perm'.nodup_iff.2 nodup) (fun x hx => kept x (globals x hx)) rest

end Codegen

/-! ## From the start to the end -/

/-- The ledger of a module in which nothing has been written. -/
def Ledger.empty (p : Program) (free : Prop) : Ledger where
  strict := True
  free := free
  straight := False
  program := p
  owed := []
  avail _ _ := False
  uses _ := False
  seen _ := False
  bound _ := False
  typed _ := False
  referenced _ := False
  underway _ := False

theorem Builder.sound_blank (p : Program) (free : Prop) (target : Target) (o : Options) :
    (blank target o).Sound (.empty p free) := by
  refine ⟨⟨⟨?_, ?_, ?_, ?_, ?_, ?_⟩, ?_, ?_, ?_, ?_, ?_, ?_, ?_, ?_⟩, ⟨?_, ?_, ?_, ?_⟩⟩
  all_goals
    simp [blank, Module.rootIds, remembered, Placed, Module.ids,
      finished, current?, Ledger.empty, form?, Arranged, Answered]

theorem State.awaits_blank (separates : ¬ free → p.Separates) (target : Target) (o : Options) :
    State.Awaits p free (.empty p free) { builder := .blank target o } [] [] where
  mode := rfl
  separates := separates
  sound :=
    { builder := sound_blank p free target o
      records := ⟨by simp, by simp, by simp, by simp, by simp⟩
      globals := by simp [blank]
      symbols := fun _ hx => hx.elim
      typed := fun _ => ⟨False.elim, by simp [State.typedStructs]⟩
      members := by simp [State.typedStructs]
      tracks := ⟨fun _ h => h.elim, by simp [Ledger.empty], by simp, by simp⟩
      underway := by simp
      scopes := by simp }
  strict := trivial
  program := rfl
  outside := rfl
  closed := rfl
  scopes := rfl
  labels := by simp [Ledger.empty]
  still := fun _ => id
  unused := fun _ => id
  seen := fun _ => False.elim
  owed := by simp
  declared := by simp [Ledger.empty]
  single := by simp

theorem State.awaits_start (separates : ¬ free → p.Separates) (target : Target) (o : Options) :
    ∃ l, State.Awaits p free l { builder := .start target o } [] [] := by
  obtain ⟨l, h, -⟩ := (State.awaits_blank separates target o).run ((setup_provides target).runs.up)
    Fact.allHold_nil (a := ()) (t := { builder := .start target o }) rfl
  exact ⟨l, h⟩

namespace Codegen

variable {p : Program} {free : Prop} {l : Ledger} {s t : State}

theorem settled_of_whole (h : s.Awaits p free l [] []) (ends : Ends (whole p o) s u t) :
    ∃ l', t.builder.Sound l' ∧ l'.strict ∧ l'.free = free ∧
      l'.owed = [] ∧ t.builder.inFunction = false := by
  obtain ⟨_, s2, prepares, ends2⟩ := ends_whole ends
  obtain ⟨l2, h2, -⟩ := h.run (preparation_runs p o) Fact.allHold_nil prepares
  have nodup := p.nodup_emitted o
  obtain ⟨_, s3, ⟨l3, pending, h3, perm⟩, ends3⟩ :=
    ends_then (declareFunctions_awaits h2 (by simpa using nodup)) ends2
  obtain ⟨_, s4, ⟨l4, h4, -, bound⟩, ends4⟩ := ends_then (bindGlobals_awaits h3 (fun _ => id)) ends3
  obtain ⟨_, s5, defines, ends5⟩ := ends_bind ends4
  obtain ⟨l5, done, h5⟩ := defineFunctions_awaits h4 (by simpa using perm)
    (by simpa using nodup) bound defines
  obtain ⟨_, s6, ⟨l6, h6, -⟩, completes⟩ :=
    ends_then (h5.run (addEntryPoint_runs p _) Fact.allHold_nil) ends5
  obtain ⟨l', sound, grows, same, pointers⟩ := completeReferences_leads (fun _ => h6.sound)
    (fun _ => ⟨h6.program, h6.still⟩) completes
  have h' : t.Awaits p free l' [] done := h6.grow sound grows same
  refine ⟨l', h'.sound.builder, h'.strict, h'.mode, eq_nil_iff_forall_not_mem.2 ?_, h'.outside⟩
  rintro ⟨x, role⟩ hx
  cases role with
  | label => exact h'.labels x hx
  | function =>
    obtain ⟨f, hf, -⟩ := h'.declared x hx
    cases hf
  | pointer => exact pointers h'.strict x hx

end Codegen

/-- The finished module is that of a builder which has asked for the last capabilities, but for
names and annotations that repeat. -/
theorem Builder.exists_finish (b : Builder) (order : SetOrder) : ∃ b' memoryModel,
    Ends (require (b.output.narrowRequirements order)) b () b' ∧
      b.finish order = { b'.output with memoryModel }.withoutRepeats :=
  ⟨_, _, rfl, rfl⟩

theorem Builder.Sound.finish {l : Ledger} (sound : b.Sound l) (hs : l.strict)
    (owed : l.owed = []) (order : SetOrder) : ∃ l' b' memoryModel, b'.Sound l' ∧ b.Grows l l' b' ∧
      l'.owed = [] ∧ b.finish order = { b'.output with memoryModel }.withoutRepeats := by
  obtain ⟨b', memoryModel, ends, finish⟩ := b.exists_finish order
  obtain ⟨l', sound', grows, same, -⟩ := (require_provides _).runs l b () b' (fun _ => sound)
    Fact.allHold_nil ends
  refine ⟨l', b', memoryModel, sound' (grows.strict ▸ hs), grows,
    eq_nil_iff_forall_not_mem.2 ?_, finish⟩
  rintro ⟨x, role⟩ hx
  have old : (x, role) ∈ l.owed := by
    cases role with
    | label => exact (grows.owed hs x).1 hx
    | function => exact (grows.functions hs x).1 hx
    | pointer => exact (same.pointers x).1 hx
  simp [owed] at old

/-- Code generation ends with a ledger in which nothing is owed. -/
theorem Program.EndsIn.settled {s : State} (free : Prop)
    (separates : ¬ free → p.Separates) (h : p.EndsIn o s) :
    ∃ l, s.builder.Sound l ∧ l.strict ∧ l.free = free ∧ l.owed = [] ∧
      s.builder.inFunction = false := by
  obtain ⟨l, start⟩ := State.awaits_start (fun watched => (separates watched).withOptions o)
    (p.withOptions o).target o
  exact Codegen.settled_of_whole start h

end ShaderGen
