import ShaderGen.Proofs.Scope.Reference

/-!
# Symbols and types

What a symbol is bound to can be used wherever the symbol is used. Types take the lengths of their
arrays from symbols, and symbols have types, so both are followed along the nesting of types.
-/

namespace ShaderGen.Codegen

open List
open Steps (Ends ends_bind ends_pure)

variable {p : Program} {typer : Typer} {id type : Ident} {l : Ledger} {before : List Fact}
  {s t : State} {w : Stance} {basic : BasicType} {f : FunctionId}

/-! ## What the program and the signatures say -/

theorem symbol_ends {x : SymbolId} {d : Symbol} (ends : Ends (p.symbol x) s d t) :
    p.symbol? x = some d ∧ s = t := by
  unfold Program.symbol at ends
  split at ends
  · rename_i found
    obtain ⟨rfl, rfl⟩ := ends_pure ends
    exact ⟨found, rfl⟩
  · cases ends

theorem struct_ends {id : StructId} {d : StructDecl} (ends : Ends (p.struct id) s d t) :
    p.struct? id = some d ∧ s = t := by
  unfold Program.struct at ends
  split at ends
  · rename_i found
    obtain ⟨rfl, rfl⟩ := ends_pure ends
    exact ⟨found, rfl⟩
  · cases ends

theorem ends_function {d : FunctionDecl} (h : Ends (p.function f) s d t) :
    p.function? f = some d ∧ t = s := by
  unfold Program.function at h
  split at h
  · cases h
    exact ⟨‹_›, rfl⟩
  · cases h

theorem ends_signature {r : Signature} (h : Ends (signature f) s r t) :
    s.signatures.lookup f = some r ∧ t = s := by
  replace h := ends_get h
  split at h
  · cases h
    exact ⟨‹_›, rfl⟩
  · cases h

section Lookup

variable {effect : Effect State} [Content effect]

theorem symbol_does (x : SymbolId) : Does effect [] (p.symbol x) (fun _ => []) w := by
  unfold Program.symbol
  split
  · exact .pure
  · exact .fail rfl

theorem function_does (f : FunctionId) : Does effect [] (p.function f) (fun _ => []) w := by
  unfold Program.function
  split
  · exact .pure
  · exact .fail rfl

theorem constituents_does (p : Program) (t : ShaderType) (count : Nat) :
    Does effect [] (constituents p t count) (fun _ => []) w := by
  unfold constituents
  split
  · exact .pure
  split
  · exact .pure
  split
  · exact .struct fun _ _ => .pure
  · exact .pure

end Lookup

section Relations

variable {rel : State → State → Prop} [IsPreorder State rel]

theorem function_relates (f : FunctionId) : Relates rel (p.function f) :=
  ((function_does f).acts : Keeps .outside rel _).leads

theorem symbol_relates (x : SymbolId) : Relates rel (p.symbol x) :=
  ((symbol_does x).acts : Keeps .outside rel _).leads

theorem signature_relates (f : FunctionId) : Relates rel (signature f) := fun s _ t ends => by
  obtain ⟨-, rfl⟩ := ends_signature ends
  exact refl_of rel t

end Relations

/-! ## Constants -/

theorem filledConstant_learns (h : Types p typer) (value : ConstantValue) (depth : Nat)
    (t : ShaderType) :
    Learning w [.program p] (filledConstant typer value depth t) ([.shared ·]) := by
  induction depth generalizing t with
  | zero => exact .fail rfl
  | succ depth ih =>
    refine .bind (h (.plain t)) fun type => ?_
    split
    · dsimp only
      split
      · exact (Builder.constBool_provides _).up.last
      · exact (Builder.constBits_provides type _).up.last
    · refine .bind (ih _) fun part => ?_
      exact (Builder.constComposite_provides type _).up.last (p := by simp)

mutual

theorem constant_learns (h : Types p typer) : (value : ConstantValue) → (t : ShaderType) →
    Learning w [.program p] (constant p typer value t) ([.shared ·])
  | .composite parts, t => by
    refine .bind (h (.plain t)) fun type => .bind (constituents_does p t _) fun types => ?_
    refine .bind (constants_learns h parts types) fun ids => ?_
    exact (Builder.constComposite_provides type ids).up.last
  | .bool _, t | .int _, t | .uint _, t | .float _, t => filledConstant_learns h _ 3 t

theorem constants_learns (h : Types p typer) : (parts : List ConstantValue) →
    (types : List ShaderType) →
    Learning w [.program p] (constants p typer parts types) fun ids => ids.map .shared
  | [], _ | _ :: _, [] => .pure
  | part :: parts, t :: types => by
    refine .bind (constant_learns h part t) fun id => ?_
    exact .bind (constants_learns h parts types) fun ids => .pure

end

/-! ## Decorations of variables -/

section Decorations

variable (var : Ident)

theorem decoratePlace_provides (q : Qualifier) (target : Target) :
    Provides w [.value var] (decoratePlace var q target) fun _ => [] := by
  unfold decoratePlace
  have decorate := Builder.decorateWith_provides (w := w) var
  refine .guard (fun _ => .optionForM fun n _ => decorate _ n) ?_
  refine .bind (.optionForM fun n _ => decorate _ n) fun _ => ?_
  refine .bind (.optionForM fun n _ => decorate _ n) fun _ => ?_
  have binding : Provides w [.value var] (q.layout.binding.forM (Builder.decorateWith var .binding))
      fun _ => [] := .optionForM fun n _ => decorate _ n
  split
  · exact .bind (decorate _ _) fun _ => binding.last
  · exact .guard (fun _ => decorate _ _) (binding.last)

theorem decorateMeaning_learns (meaning : BuiltIn) :
    Learning w [.value var] (decorateMeaning var meaning) fun _ => [] := by
  refine .bind (Builder.decorateBuiltIn_provides var meaning).up fun _ => ?_
  have replaces : Learning w []
    (modify fun s : State => { s with replacesDepth := true } : Codegen PUnit)
      fun _ => [] := ⟨.tabulate (fun _ => ⟨_, _, _, _, _, rfl⟩) fun _ _ _ _ r => { r with },
    note_learns (fun _ => .note) fun _ _ => rfl⟩
  refine .guard (fun _ => replaces) ?_
  refine .lookBuilder (fun _ => rfl) fun b => ?_
  split
  · exact (Builder.decorate_provides var _).up.last
  · exact .pure

theorem decorateTreatment_provides (q : Qualifier) (storage : StorageClass) (stage : Stage) :
    Provides w [.value var] (decorateTreatment var q storage stage) fun _ => [] := by
  unfold decorateTreatment
  have decorate := Builder.decorate_provides (w := w) var
  refine .guard (fun _ => .optionForM fun d _ => decorate d) ?_
  have rest : Provides w [.value var] (do
      q.invariantDecoration?.forM (Builder.decorate var)
      q.precision.decoration?.forM (Builder.decorate var) : Emit PUnit) fun _ => [] :=
    .bind (.optionForM fun d _ => decorate d) fun _ => .last (.optionForM fun d _ => decorate d)
  split
  · exact .bind (Builder.require_provides _) fun _ => .bind (decorate _) fun _ => rest.last
  · exact rest.last

theorem decorateMemory_provides (t : ShaderType) :
    Provides w [.value var] (decorateMemory var t) fun _ => [] := by
  have decorate := Builder.decorate_provides (w := w) var
  have decorateWith := Builder.decorateWith_provides (w := w) var
  have rest : Provides w [.value var] (t.qualifier.layout.xfbStride.forM
      (Builder.decorateWith var .xfbStride)) fun _ => [] := .optionForM fun n _ => decorateWith _ n
  refine .fork ?_ fun _ rest => .lookEmit (fun _ => rfl) fun b =>
    .bind (.forM fun d _ => decorate d) fun _ =>
    .bind (.optionForM fun n _ => decorateWith _ n) fun _ => rest.last
  split
  · exact .bind (decorateWith _ _) fun _ => .bind (Builder.addCapability_provides _) fun _ =>
      rest.last
  · exact rest.last

theorem decorateObject_learns (p : Program) (t : ShaderType) (storage : StorageClass) :
    Learning w [.value var] (decorateObject p var t storage) fun _ => [] := by
  refine .bind (decoratePlace_provides var _ _).up fun _ => ?_
  refine .bind (Builder.require_provides _).up fun _ => ?_
  refine .bind (.optionForM fun m _ => decorateMeaning_learns var m) fun _ => ?_
  refine .bind (decorateTreatment_provides var _ storage _).up fun _ => ?_
  exact (decorateMemory_provides var t).up.last

end Decorations

/-! ## Bindings -/

section Bindings

variable {x : SymbolId} {d : Symbol}

section Fits

variable {pointer : Ident} {storage : StorageClass} [t : Gives before (.shared type)]

instance [g : Gives before (.shared id)] : Gives before (.fits x (.value id type)) :=
  ⟨fun l b hold hs => ⟨t.holds l b hold hs, .inl (g.holds l b hold hs)⟩⟩

instance [g : Gives before (.anywhere pointer)] :
    Gives before (.fits x (.object pointer type storage)) :=
  ⟨fun l b hold hs => ⟨t.holds l b hold hs, (g.holds l b hold hs).2, .inl (g.holds l b hold hs).1⟩⟩

theorem gives_fits_local (own : p.IsPrivate x) [g : Gives before (.fixed pointer)]
    [u : Gives before (.used x)] [h : Gives before (.program p)] :
    Gives before (.fits x (.object pointer type storage)) := by
  refine ⟨fun l b hold hs => ?_⟩
  have program : l.program = p := h.holds l b hold hs
  obtain ⟨fixed, placed⟩ := g.holds l b hold hs
  exact ⟨t.holds l b hold hs, placed, .inr ⟨program ▸ own, (u.holds l b hold hs).2, fun _ => fixed⟩⟩

end Fits

theorem specConstant_learns (h : Types p typer) (x : SymbolId) (d : Symbol) :
    Learning w [.program p] (specConstant p typer d) fun binding => [.fits x binding] := by
  refine .bind (h (.plain d.type)) fun type => ?_
  have rest : ∀ id, Learning w [.shared id, .shared type] (do
      d.type.qualifier.layout.specId.forM fun n =>
        (Builder.decorateWith id .specId n : Codegen Unit)
      Builder.name id d.name
      return Binding.value id type : Codegen Binding) fun binding => [.fits x binding] := by
    intro id
    refine .bind (.optionForM fun n _ => (Builder.decorateWith_provides id .specId n).up)
      fun _ => ?_
    refine .bind (Builder.name_provides id d.name).up fun _ => .pure
  split
  · refine .bind (constituents_does p d.type _) fun types => ?_
    refine .bind (constants_learns h _ types) fun ids => ?_
    exact .bind (Builder.specComposite_provides type ids).up fun id => (rest id).last
  · exact .bind (Builder.specBits_provides type _).up fun id => (rest id).last

theorem globalObject_runs (h : Types p typer) (x : SymbolId) (d : Symbol) :
    Runs [.program p, .outside] (globalObject p typer d) fun binding => [.fits x binding] := by
  refine .bind (h _).runs fun type => ?_
  refine .bind (h := by simp) (Builder.globalVariable_runs type _ d.name none).up fun var => ?_
  refine .bind (decorateObject_learns var p d.type _).runs fun _ => .pure

theorem localObject_runs (h : Types p typer) (own : p.IsPrivate x) (d : Symbol) :
    Runs [.program p, .used x] (localObject typer d) fun binding => [.fits x binding] := by
  refine .bind (h (.plain d.type)).runs fun type => ?_
  refine .bind (Builder.localVariable_runs d.name type).up fun var => ?_
  refine .bind (.optionForM fun q _ => (Builder.decorate_provides var q).runs.up) fun _ =>
    .pure (h := entails_cons.2 ⟨gives_fits_local own, entails_nil⟩)

theorem newBinding_runs (h : Types p typer) (hd : p.symbol? x = some d)
    (hprogram : .program p ∈ before) (hlocal : p.IsLocal x → .used x ∈ before)
    (hglobal : p.isGlobal x d = true → .outside ∈ before) :
    Runs before (newBinding p typer x d) fun binding => [.fits x binding] := by
  unfold newBinding
  split
  · exact (specConstant_learns h x d).runs.last (p := by simp [hprogram])
  · rename_i notSpec
    split
    · refine .bind (h (.plain d.type)).runs (h := by simp [hprogram]) (fun type => ?_)
      refine .bind (constant_learns h _ d.type).runs (h := by simp [hprogram]) fun id => .pure
    · rename_i notConstant
      split
      · rename_i isGlobal
        have note : Runs [] (modify fun st : State => { st with globals := x :: st.globals } :
            Codegen PUnit) fun _ => [] :=
          .tabulate (fun _ => ⟨_, _, _, _, _, rfl⟩) fun _ _ _ _ r =>
            { r with }
        refine .bind note fun _ => (globalObject_runs h x d).last (p := ?_)
        simp [hprogram, hglobal isGlobal]
      · rename_i notGlobal
        have own : p.IsLocal x := by
          refine ⟨d, hd, by simpa using notSpec, fun storage => ?_, by simpa using notGlobal⟩
          cases value : d.value with
          | none => rfl
          | some v => exact absurd value (notConstant v storage)
        exact (localObject_runs h (.inl own) d).last (p := by simp [hprogram, hlocal own])

theorem bind_runs (x : SymbolId) (binding : Binding) :
    Runs [.fits x binding] (bind x binding) fun _ => [.bound x] := by
  intro l s u t sound hold ends
  cases ends
  have fits : l.strict → binding.Fits l s.builder x := hold _ mem_cons_self
  have grows : s.builder.Grows l { l with bound := fun y => y = x ∨ l.bound y } s.builder :=
    (Builder.Grows.refl l s.builder).widen (fun _ => .inr) fun _ h => h
  refine ⟨_, fun hs => ?_, grows, ⟨rfl, rfl, rfl, .refl _ _⟩, Fact.allHold_cons (fun _ => .inl rfl)
    Fact.allHold_nil⟩
  have old := sound hs
  have records := old.records.mono grows.toFollows hs
  have found : ∀ y, (s.bindings.lookup y).isSome →
      (((x, binding) :: s.bindings).lookup y).isSome := by
    intro y hy
    by_cases same : y = x
    · subst same
      rw [lookup_cons_self]
      rfl
    · rwa [lookup_cons_of_ne same]
  exact {
    builder := old.builder.congr rfl rfl rfl
    records := by
      refine ⟨fun y b' hy => ?_, records.signatures, records.structTypes, records.references,
        records.pairTypes⟩
      by_cases same : y = x
      · subst same
        rw [lookup_cons_self] at hy
        cases hy
        exact ⟨(fits hs).mono grows.toFollows hs, .inl rfl⟩
      · rw [lookup_cons_of_ne same] at hy
        exact records.bindings y b' hy
    globals := old.globals.imp_right fun bound inside y e hy global =>
      found y (bound inside y e hy global)
    symbols := by
      rintro y (rfl | hy)
      · rw [lookup_cons_self]
        rfl
      · exact found y (old.symbols y hy)
    typed := old.typed
    members := fun id hid e he m hm =>
      (old.members id hid e he m hm).mono grows.toFollows hs
    tracks := { old.tracks with }
    underway := old.underway
    scopes := old.scopes }

/-- A symbol that is not bound is not one at module scope, once a function has begun. -/
theorem leads_of_unbound {α : Type} {c : Codegen α} (after : α → List Fact)
    (hd : p.symbol? x = some d) (hprogram : .program p ∈ before) {a : α}
    (h : ∀ before', (∀ φ ∈ before, φ ∈ before') → (p.isGlobal x d = true → .outside ∈ before') →
      Runs before' c after) (sound : World.Sound l s) (hold : Fact.AllHold l s.builder before)
    (absent : s.bindings.lookup x = none) (ends : Ends c s a t) : Leads l s t (after a) := by
  cases global : p.isGlobal x d with
  | false => exact h before (fun _ h => h) (by simp [global]) l s a t sound hold ends
  | true =>
    have outside : (Fact.outside).Holds l s.builder := by
      intro hs
      have program : l.program = p := hold _ hprogram hs
      refine (sound hs).globals.imp_right fun bound => ?_
      cases inside : s.builder.inFunction with
      | false => rfl
      | true =>
        have found := bound inside x d (program ▸ hd) (program ▸ global)
        simp [absent] at found
    exact h (.outside :: before) (fun _ => mem_cons_of_mem _) (fun _ => mem_cons_self)
      l s a t sound (Fact.allHold_cons outside hold) ends

theorem firstBinding_runs (h : Types p typer) (hd : p.symbol? x = some d)
    (hprogram : .program p ∈ before) (hlocal : p.IsLocal x → .used x ∈ before)
    (hglobal : p.isGlobal x d = true → .outside ∈ before) : Runs before (do
      let binding ← newBinding p typer x d
      bind x binding
      return binding : Codegen Binding) fun binding => [.fits x binding, .bound x] := by
  refine .next (newBinding_runs h hd hprogram hlocal hglobal) fun binding => ?_
  exact .bind (bind_runs x binding) fun _ => .pure

theorem leads_of_bound {binding : Binding} (sound : World.Sound l s)
    (found : s.bindings.lookup x = some binding) : Leads l s s [.fits x binding, .bound x] := by
  have known := fun hs => (sound hs).records.bindings x binding found
  exact ⟨l, sound, .refl l _, .refl _, Fact.allHold_cons (fun hs => (known hs).1)
    (Fact.allHold_cons (fun hs => (known hs).2) Fact.allHold_nil)⟩

theorem bindingOf_runs_of (h : Types p typer) (x : SymbolId) (hprogram : .program p ∈ before)
    (hlocal : p.IsLocal x → .used x ∈ before) :
    Runs before (bindingOf p typer x) fun binding => [.fits x binding, .bound x] := by
  intro l s binding t sound hold ends
  replace ends := ends_get ends
  split at ends
  · rename_i found
    cases ends
    exact leads_of_bound sound found
  · rename_i absent
    unfold Program.symbol at ends
    split at ends
    · rename_i d hd
      rw [pure_bind] at ends
      refine leads_of_unbound (fun binding => [.fits x binding, .bound x]) hd hprogram
        (fun before' sub hglobal => ?_) sound hold absent ends
      exact firstBinding_runs h hd (sub _ hprogram) (fun own => sub _ (hlocal own)) hglobal
    · cases ends

theorem bindingOf_runs (h : Types p typer) (x : SymbolId) :
    Runs [.program p, .used x] (bindingOf p typer x)
      fun binding => [.fits x binding, .bound x] :=
  bindingOf_runs_of h x (by simp) fun _ => by simp

/-- Symbols are bound without code where variables can be. -/
theorem bindingOf_keeps {rel : State → State → Prop} [IsPreorder State rel]
    (learn : ∀ {s t : State}, s.Learns t → rel s t) (h : Types p typer)
    (globals : ∀ type storage text,
      Keeps w rel (liftM (Builder.globalVariable type storage text none) : Codegen Ident))
    (locals : ∀ text type, Keeps w rel (liftM (Builder.localVariable text type) : Codegen Ident))
    (x : SymbolId) : Keeps w rel (bindingOf p typer x) := by
  have widen : ∀ {α : Type} {c : Codegen α}, Keeps w State.Learns c → Keeps w rel c :=
    fun keeps => keeps.retell fun s a t ends => learn (keeps.leads s a t ends)
  have type : ∀ r, Keeps w rel (typer r) := fun r => widen (h r).acts
  refine .lookState (fun _ => rfl) fun s => ?_
  split
  · exact .pure
  refine .bind (symbol_does x).acts fun d => .bind ?_ fun binding =>
    .bind (widen (note_learns (fun _ => .note) fun _ _ => rfl)) fun _ => .pure
  unfold newBinding
  split
  · exact widen (specConstant_learns h x d).acts
  split
  · exact .bind (type _) fun _ => .bind (widen (constant_learns h _ _).acts) fun _ => .pure
  split
  · refine .bind (widen (note_learns (fun _ => .note) fun _ _ => rfl)) fun _ => ?_
    refine .bind (type _) fun type => .bind (globals _ _ _) fun var => ?_
    exact .bind (widen (decorateObject_learns var p _ _).acts) fun _ => .pure
  · refine .bind (type _) fun type => .bind (locals _ _) fun var => ?_
    exact .bind (.optionForM fun q _ => widen (Builder.decorate_provides var q).silent.up) fun _ =>
      .pure

theorem newBinding_value (h : Types p typer)
    (ends : Ends (newBinding p typer x d) s (.value id type) t) : s.Learns t := by
  unfold newBinding at ends
  split at ends
  · exact (specConstant_learns (w := .outside) h x d).acts.leads s _ t ends
  split at ends
  · rename_i value _ _
    have value : Keeps .outside State.Learns (do
        let type ← typer (.plain d.type)
        return .value (← constant p typer value d.type) type : Codegen Binding) :=
      .bind (h _).acts fun _ => .bind (constant_learns h _ _).acts fun _ => .pure
    exact value.leads s _ t ends
  · split at ends
    · obtain ⟨_, s1, -, _, s2, -, ends⟩ := ends_bind₂ ends
      obtain ⟨_, s3, -, _, s4, -, ends⟩ := ends_bind₂ ends
      cases (ends_pure ends).1
    · obtain ⟨_, s1, -, _, s2, -, ends⟩ := ends_bind₂ ends
      obtain ⟨_, s3, -, ends⟩ := ends_bind ends
      cases (ends_pure ends).1

theorem bindingOf_value (h : Types p typer)
    (ends : Ends (bindingOf p typer x) s (.value id type) t) : s.Learns t := by
  replace ends := ends_get ends
  split at ends
  · obtain ⟨-, rfl⟩ := ends_pure ends
    exact refl_of State.Learns _
  · obtain ⟨d, s2, hsymbol, binding, s3, hnew, ends⟩ := ends_bind₂ ends
    obtain ⟨_, s4, hbind, ends⟩ := ends_bind ends
    obtain ⟨rfl, rfl⟩ := ends_pure ends
    cases hbind
    obtain ⟨-, rfl⟩ := symbol_ends hsymbol
    have bound : s3.Learns { s3 with bindings := (x, .value id type) :: s3.bindings } := .note
    exact trans_of State.Learns (newBinding_value h hnew) bound

/-! ## Lengths of arrays -/

theorem gives_length_of_fits : Gives (.fits x (.value id type) :: before) (.length id) := by
  refine ⟨fun l b hold hs => ?_⟩
  obtain ⟨-, shared | ⟨parameter, -⟩⟩ := hold _ mem_cons_self hs
  · exact .inl shared
  · exact .inr parameter

theorem not_isLocal_of_value (hd : p.symbol? x = some d)
    (ends : Ends (newBinding p typer x d) s (.value id type) t) : ¬ p.IsLocal x := by
  rintro ⟨e, he, notSpec, notConstant, notGlobal⟩
  cases hd.symm.trans he
  unfold newBinding at ends
  rw [if_neg (by simp [notSpec])] at ends
  split at ends
  · rename_i value storage found
    simp [notConstant storage] at found
  · rw [if_neg (by simp [notGlobal])] at ends
    obtain ⟨_, _, -, _, _, -, ends⟩ := ends_bind₂ ends
    obtain ⟨_, _, -, ends⟩ := ends_bind ends
    cases ends

theorem leads_of_value (h : Types p typer) (sound : World.Sound l s)
    (program : (Fact.program p).Holds l s.builder)
    (ends : Ends (bindingOf p typer x) s (.value id type) t) :
    Leads l s t [.fits x (.value id type), .bound x] := by
  replace ends := ends_get ends
  split at ends
  · rename_i found
    cases ends
    exact leads_of_bound sound found
  · rename_i absent
    unfold Program.symbol at ends
    split at ends
    · rename_i d hd
      rw [pure_bind] at ends
      have notLocal : ¬ p.IsLocal x := by
        obtain ⟨binding, s1, new, _, s2, -, rest⟩ := ends_bind₂ ends
        cases rest
        exact not_isLocal_of_value hd new
      refine leads_of_unbound (fun binding => [.fits x binding, .bound x]) hd mem_cons_self
        (fun before' sub hglobal => ?_) sound (Fact.allHold_cons program Fact.allHold_nil)
        absent ends
      exact firstBinding_runs h hd (sub _ (by simp)) (fun own => absurd own notLocal) hglobal
    · cases ends

theorem length_learns (h : Types p typer) (x : SymbolId) {cause : Cause} {f : Ident → Codegen Ident}
    (hprogram : .program p ∈ before) (blameless : (Failure.generating cause none).wanted? = none)
    {after : Ident → List Fact}
    (hf : ∀ length, Learning w (.length length :: .bound x :: before) (f length) after) :
    Learning w before (do
      match ← bindingOf p typer x with
      | .value length _ => f length
      | .object _ _ _ => fail cause) after := by
  have binds : Acting w w .any (bindingOf p typer x) :=
    bindingOf_keeps (fun _ => trivial) h
      (fun _ _ _ => .up (fun _ _ _ => trivial) (Builder.globalVariable_any _ _ _ _))
      (fun _ _ => .up (fun _ _ _ => trivial) (Builder.localVariable_acts _ _)) x
  refine ⟨?_, Acting.retell (binds.bind fun binding => (?_ : Acting w w .any _))
    fun s a t ends => ?_⟩
  rotate_left
  · cases binding with
    | object => exact .fail blameless
    | value length type => exact (hf length).acts.forget
  · obtain ⟨binding, s1, binds, ends⟩ := ends_bind ends
    cases binding with
    | object => cases ends
    | value length type =>
      exact trans_of State.Learns (bindingOf_value h binds) ((hf length).acts.leads s1 a t ends)
  intro l s r u sound hold ends
  obtain ⟨binding, t, binds, ends⟩ := ends_bind ends
  cases binding with
  | object pointer type storage => cases ends
  | value length type =>
    obtain ⟨l1, sound1, grows1, same1, hold1⟩ := leads_of_value h sound (hold _ hprogram) binds
    have fact : (Fact.length length).Holds l1 t.builder :=
      gives_length_of_fits.holds l1 _ hold1
    obtain ⟨l2, sound2, grows2, same2, hold2⟩ := Does.runs (hf length) l1 t r u sound1
      (Fact.allHold_cons fact (Fact.allHold_cons (hold1 _ (by simp)) (hold.mono grows1))) ends
    exact ⟨l2, sound2, grows1.trans grows2, same1.trans same2, hold2⟩

end Bindings

/-! ## Types -/

/-- What is known when an array dimension has been dealt with. -/
def sizeFacts : ArraySize → List Fact
  | .spec x => [.bound x]
  | _ => []

theorem sampledType_provides (t : SampledType) : Provides w [] (sampledType t) ([.shared ·]) := by
  cases t with
  | float => exact Builder.typeFloat_provides 32
  | int => exact Builder.typeInt_provides 32 true
  | uint => exact Builder.typeInt_provides 32 false

theorem samplerType_provides (s : Sampler) (format : ImageFormat) :
    Provides w [] (samplerType s format) ([.shared ·]) := by
  unfold samplerType
  split
  · exact Builder.typeSampler_provides
  · refine .bind (sampledType_provides _) fun sampled => .bind (Builder.require_provides _)
      fun _ => ?_
    refine .bind (Builder.require_provides _) fun _ => .bind (Builder.typeImage_provides _)
      fun image => ?_
    split
    · exact (Builder.typeSampledImage_provides image).last
    · exact .pure

theorem shapedType_provides (t : ShaderType) (scalar : Ident) :
    Provides w [.shared scalar] (shapedType t scalar) ([.shared ·]) := by
  unfold shapedType
  split
  · exact .bind (Builder.typeVector_provides scalar _) fun column =>
      (Builder.typeMatrix_provides column _).last
  · exact Builder.typeVector_provides scalar _

theorem gives_covered {arrays : List ArraySize}
    (reference : ∀ id, basic = .reference id → Gives before (.referenced id))
    (struct : ∀ id, basic = .struct id ∨ basic = .block id → Gives before (.typed id))
    (length : ∀ x, ArraySize.spec x ∈ arrays → Gives before (.bound x)) :
    Gives before (.covered basic arrays) :=
  ⟨fun l b hold hs => ⟨fun id hid => (reference id hid).holds l b hold hs,
    fun id hid => (struct id hid).holds l b hold hs, fun x hx => (length x hx).holds l b hold hs⟩⟩

theorem structType_covers (h : Types p typer) {id : StructId}
    (hb : basic = .struct id ∨ basic = .block id) (use : StructUse) :
    Learning w [.program p] (structType p typer id use) fun t =>
    [.shared t, .covered basic []] := by
  refine (structType_learns h id use).last (q := fun t => ?_)
  refine entails_cons.2 ⟨by simp, entails_cons.2 ⟨gives_covered ?_ ?_ (by simp), entails_nil⟩⟩
  · intro i hi
    simp [hi] at hb
  · intro i hi
    obtain rfl : i = id := by
      rcases hb with hb | hb <;> rcases hi with hi | hi <;> rw [hb] at hi <;> cases hi <;> rfl
    simp

theorem elementType_learns (h : Types p typer) (r : TypeRequest) :
    Learning w [.program p] (elementType p typer r)
      fun t => [.shared t, .covered r.type.basic []] := by
  have plain : ∀ {c : Codegen Ident}, (∀ id, r.type.basic ≠ .reference id) →
      (∀ id, ¬ (r.type.basic = .struct id ∨ r.type.basic = .block id)) →
      Learning w [] c ([.shared ·]) →
      Learning w [.program p] c fun t => [.shared t, .covered r.type.basic []] := by
    intro c noReference noStruct hc
    refine hc.last (q := fun t => ?_)
    refine entails_cons.2 ⟨by simp, entails_cons.2 ⟨?_, entails_nil⟩⟩
    exact gives_covered (fun id hid => absurd hid (noReference id))
      (fun id hid => absurd hid (noStruct id)) (by simp)
  have shaped : ∀ scalar, Learning w [.shared scalar]
    (liftM (shapedType r.type scalar) : Codegen Ident)
      ([.shared ·]) := fun scalar => (shapedType_provides r.type scalar).up
  unfold elementType
  split
  · rename_i hb
    exact plain (by simp [hb]) (by simp [hb]) Builder.typeVoid_provides.up
  · rename_i hb
    refine plain (by simp [hb]) (by simp [hb]) ?_
    split
    · exact .bind Builder.typeWord_provides.up fun scalar => (shaped scalar).last
    · exact .bind Builder.typeBool_provides.up fun scalar => (shaped scalar).last
  · rename_i width hb
    refine plain (by simp [hb]) (by simp [hb]) ?_
    exact .bind (Builder.typeInt_provides width true).up fun scalar => (shaped scalar).last
  · rename_i width hb
    refine plain (by simp [hb]) (by simp [hb]) ?_
    exact .bind (Builder.typeInt_provides width false).up fun scalar => (shaped scalar).last
  · rename_i width hb
    refine plain (by simp [hb]) (by simp [hb]) ?_
    exact .bind (Builder.typeFloat_provides width).up fun scalar => (shaped scalar).last
  · rename_i s hb
    exact plain (by simp [hb]) (by simp [hb]) (samplerType_provides s _).up
  · rename_i id hb
    exact structType_covers h (.inl hb) _
  · rename_i id hb
    exact structType_covers h (.inr hb) _
  · rename_i hb
    exact plain (by simp [hb]) (by simp [hb]) Builder.typeAccelerationStructure_provides.up
  · rename_i hb
    refine plain (by simp [hb]) (by simp [hb]) ?_
    exact .bind (Builder.require_provides _).up fun _ => Builder.typeRayQuery_provides.up.last
  · rename_i id hb
    refine (referenceType_learns h id).last (q := fun t => ?_)
    refine entails_cons.2 ⟨by simp, entails_cons.2 ⟨gives_covered ?_ ?_ (by simp), entails_nil⟩⟩
    · intro i hi
      cases hb.symm.trans hi
      simp
    · simp [hb]

theorem arrayOf_learns (h : Types p typer) (size : ArraySize) (element : Ident)
    (stride : Option Nat) (lastMember : Bool) :
    Learning w [.program p, .shared element] (arrayOf p typer size element stride lastMember)
      fun t => .shared t :: sizeFacts size := by
  unfold arrayOf
  refine .bind (ensureFits_learns _) fun _ => ?_
  split
  · refine .bind (Builder.constWord_provides _).up fun length => ?_
    exact (Builder.typeArray_provides element length stride).up.last (q := by simp [sizeFacts])
  · rename_i x
    refine length_learns h x (by simp) rfl fun length => ?_
    exact (Builder.typeArray_provides element length stride).up.last (q := by simp [sizeFacts])
  · refine .guard (fun _ => (Builder.require_provides _).up) ?_
    exact (Builder.typeRuntimeArray_provides element stride).up.last (q := by simp [sizeFacts])

theorem typeWithDimensions_learns (h : Types p typer) (r : TypeRequest)
    (dimensions : List ArraySize) (lastMember : Bool) :
    Learning w [.program p] (typeWithDimensions p typer r dimensions lastMember)
      fun t => [.shared t, .covered r.type.basic dimensions] := by
  induction dimensions generalizing lastMember with
  | nil => exact elementType_learns h r
  | cons size inner ih =>
    unfold typeWithDimensions
    have finish : ∀ element, Learning w [.program p, .shared element, .covered r.type.basic inner]
        (arrayOf p typer size element (arrayStride? p r { r.type with arrays := size :: inner })
          lastMember) fun t => [.shared t, .covered r.type.basic (size :: inner)] := by
      intro element
      refine (arrayOf_learns h size element _ lastMember).last (q := fun t => ?_)
      refine entails_cons.2 ⟨by simp, entails_cons.2 ⟨⟨fun l b hold hs => ?_⟩, entails_nil⟩⟩
      have covers : l.Covers r.type.basic inner := hold (.covered r.type.basic inner) (by simp) hs
      refine ⟨covers.reference, covers.struct, fun x hx => ?_⟩
      rcases mem_cons.1 hx with rfl | hx
      · exact hold (.bound x) (by simp [sizeFacts]) hs
      · exact covers.length x hx
    split
    · rename_i id hid
      have hb : r.type.basic = .struct id ∨ r.type.basic = .block id := by
        unfold ShaderType.structId? at hid
        split at hid <;> simp_all
      exact .bind (structType_covers h hb _) fun element => (finish element).last
    · exact .bind (ih false) fun element => (finish element).last

theorem typeWithin_learns (p : Program) (depth : Nat) : Types p (typeWithin p depth) := by
  induction depth with
  | zero => exact fun r => .fail rfl
  | succ depth ih => exact fun r => typeWithDimensions_learns ih r _ _

theorem typer_learns (p : Program) : Types p (Codegen.typer p) :=
  typeWithin_learns p _

theorem valueType_learns (p : Program) (t : ShaderType) :
    Learning w [.program p] (valueType p t) fun id => [.shared id, .covered t.basic t.arrays] :=
  typer_learns p (.plain t)

/-! ## References -/

theorem completeReference_learns (p : Program) (id : StructId) (type : Ident) :
    Keeps w State.Learns (completeReference p (Codegen.typer p) id type) :=
  .bind (targetType_learns (typer_learns p) id).acts fun _ =>
    .bind (Builder.completePointer_silent _ _).up fun _ => note_learns (fun _ => .note) fun _ _ =>
    rfl

theorem followReference_learns (p : Program) (id : StructId) :
    Keeps w State.Learns (followReference p (Codegen.typer p) id) := by
  refine .bind (referenceType_learns (typer_learns p) id).acts fun type => ?_
  refine .lookState (fun _ => rfl) fun s => ?_
  split
  on_goal 1 => refine .bind (completeReference_learns p id type) fun _ => ?_
  all_goals
    refine .lookBuilder (fun _ => rfl) fun b => ?_
    split
    · exact .pure
    · exact .fail rfl

end ShaderGen.Codegen
