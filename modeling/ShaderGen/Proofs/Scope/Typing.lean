import ShaderGen.Proofs.Generation.Building

/-!
# Types and symbols of the program

The type of the module for a type of the program can be used anywhere, and what a symbol is bound to
can be used wherever the symbol can. A pointer type for references that has only been announced
counts as defined, since it is owed.
-/

namespace ShaderGen

open Builder List
open Steps (ends_bind)

variable {l : Ledger} {before : List Fact} {id : StructId} {w : Stance} {α : Type} {b : Builder}
  {d : StructDecl} {m : Type → Type}

/-! ## Decorations of members -/

namespace StructUse

variable (use : StructUse) (struct : Ident)

theorem decoratePipeMember_provides (stage : Stage) (k : Nat) (m : Qualifier) :
    Provides w [.value struct] (use.decoratePipeMember stage struct k m) fun _ => [] := by
  refine .bind (.optionForM fun d _ => annotate_provides rfl rfl) fun _ => ?_
  dsimp only
  split
  · exact .bind (require_provides _) fun _ => .last (annotate_provides rfl rfl)
  · exact .pure

theorem decorateMember_provides (p : Program) (offsets : List Nat) (m : StructMember)
    (source k : Nat) :
    Provides w [.value struct] (use.decorateMember p struct offsets m source k) fun _ => [] := by
  refine .bind (addName_provides { target := struct, member := some k, text := m.name }) fun _ => ?_
  refine .bind (.optionForM fun d _ => annotate_provides rfl rfl) fun _ => ?_
  refine .guard (fun _ => use.decoratePipeMember_provides struct _ k _) ?_
  refine .guard (fun _ => annotate_provides rfl rfl) ?_
  refine .fork ?_ fun _ rest =>
    .lookEmit (fun _ => rfl) fun b => .bind (.forM fun d _ => annotate_provides rfl rfl) fun _ =>
    rest.last
  refine .guard (fun _ => .optionForM fun n _ => annotate_provides rfl rfl) ?_
  refine .bind (.optionForM fun n _ => annotate_provides rfl rfl) fun _ => ?_
  refine .bind (.optionForM fun n _ => annotate_provides rfl rfl) fun _ => ?_
  refine .fork ?_ fun _ rest =>
    .bind (annotate_provides rfl rfl) fun _ => .bind (annotate_provides rfl rfl) fun _ => rest.last
  refine .bind (require_provides _) fun _ => ?_
  exact .last (.optionForM fun b _ => annotate_provides rfl rfl)

theorem decorate_provides (p : Program) (id : StructId) (s : StructDecl) :
    Provides w [.value struct] (use.decorate p id s struct) fun _ => [] := by
  refine .bind (.forM fun m _ => use.decorateMember_provides struct p _ m.1.1 m.1.2 m.2) fun _ => ?_
  split
  · exact .last (.optionForM fun d _ => annotate_provides rfl rfl)
  · exact .pure

end StructUse

/-! ## Bookkeeping of code generation -/

/-- Types and symbols may have become known, but no code has been written. -/
structure State.Learns (s t : State) : Prop where
  code : s.builder.SameCode t.builder
  signatures : t.signatures = s.signatures
  diagnostics : t.diagnostics = s.diagnostics

instance : IsPreorder State State.Learns where
  refl _ := ⟨.refl _, rfl, rfl⟩
  trans _ _ _ h g :=
    ⟨h.code.trans g.code, g.signatures.trans h.signatures, g.diagnostics.trans h.diagnostics⟩

variable {s : State}

/-- What is remembered about types and symbols may be anything. -/
theorem State.Learns.note {bindings globals structTypes memberTables underway references depth} :
    s.Learns { s with
      bindings, globals, structTypes, memberTables, underway, references, replacesDepth := depth } :=
  ⟨.refl _, rfl, rfl⟩

theorem State.Learns.declare (s : State) (b : Builder) (h : s.builder.SameCode b) :
    s.Learns { s with builder := b } := ⟨h, rfl, rfl⟩

variable {f : State → State}

theorem note_learns (learns : ∀ s, State.Learns s (f s))
    (apart : ∀ s b, f (World.replace s b) = World.replace (f s) b) :
    Keeps w State.Learns (modify f : Codegen PUnit) := .remember learns apart

/-- The step keeps the ledger, and types and symbols may become known. -/
abbrev Learning {α : Type} (w : Stance) (before : List Fact) (c : Codegen α)
    (after : α → List Fact) : Prop := Does (.only State.Learns) before c after w

theorem Learning.runs {c : Codegen α} {after : α → List Fact}
    (h : Learning .outside before c after) : Runs before c after := Does.runs h

theorem Silent.up [Monad m] [MonadLiftT m Codegen] [Steps m Builder]
    [Embeds m Codegen State] {c : m α} (h : Silent w c) :
    Keeps w State.Learns (liftM c : Codegen α) :=
  .up State.Learns.declare h

theorem Provides.up [Monad m] [MonadLiftT m Codegen] [Steps m Builder]
    [Embeds m Codegen State] {c : m α} {after : α → List Fact}
    (h : Provides w before c after) : Learning w before (liftM c : Codegen α) after :=
  ⟨(Does.runs h).up, h.silent.up⟩

section Lookup

variable {p : Program} {β : Type} {effect : Effect State} {after : β → List Fact}

theorem Does.struct {f : StructDecl → Codegen β}
    (h : ∀ d, p.struct? id = some d → Does effect before (f d) after w) :
    Does effect before (p.struct id >>= f) after w := by
  unfold Program.struct
  split
  · exact h _ ‹_›
  · exact .fail rfl

theorem Does.symbol {x : SymbolId} {f : Symbol → Codegen β}
    (h : ∀ d, p.symbol? x = some d → Does effect before (f d) after w) :
    Does effect before (p.symbol x >>= f) after w := by
  unfold Program.symbol
  split
  · exact h _ ‹_›
  · exact .fail rfl

end Lookup

theorem Codegen.ensureFits_learns (fits : Bool) : Learning w [] (ensureFits fits) fun _ => [] := by
  unfold ensureFits
  split
  · exact .pure
  · exact .fail rfl

theorem Runs.tabulate (frame : ∀ s, ∃ diagnostics globals replacesDepth structTypes pairTypes, f s =
      { s with diagnostics, globals, replacesDepth, structTypes, pairTypes })
    (h : ∀ l s, l.strict → Fact.AllHold l s.builder before → s.Records l s.builder →
      (f s).Records l s.builder) : Runs before (modify f : Codegen PUnit) fun _ => [] := by
  intro l s u t sound hold ends
  obtain ⟨diagnostics, globals, replacesDepth, structTypes, pairTypes, hf⟩ := frame s
  obtain rfl : f s = t := by cases ends; rfl
  have records : l.strict → (f s).Records l s.builder :=
    fun hs => h l s hs hold (sound hs).records
  rw [hf] at records ⊢
  refine ⟨l, fun hs => ?_, .refl l _, ⟨rfl, rfl, rfl, .refl _ _⟩, fun φ hφ => by cases hφ⟩
  exact { sound hs with records := records hs }

theorem Codegen.report_runs (d : Diagnostic) : Runs [] (report d) fun _ => [] :=
  .tabulate (fun _ => ⟨_, _, _, _, _, rfl⟩) fun _ _ _ _ r =>
    { r with }

theorem Builder.Sound.congr {l' : Ledger} (h : b.Sound l) (free : l'.free = l.free)
    (owed : l'.owed = l.owed) (avail : l'.avail = l.avail) : b.Sound l' := by
  cases l
  cases l'
  subst free owed avail
  exact { h with order := { h.order with } }

/-! ## Structures -/

/-- The ledger while the members of a structure are being typed. -/
def Ledger.enter (l : Ledger) (id : StructId) : Ledger :=
  { l with underway := fun x => x = id ∨ l.underway x }

/-- The ledger when the structure has a type, and `underway` are as before. -/
def Ledger.leave (l : Ledger) (id : StructId) (underway : StructId → Prop) : Ledger :=
  { l with underway, typed := fun x => x = id ∨ l.typed x }

theorem State.Sound.enter (h : s.Sound l) (hid : id < l.program.structs.length) :
    State.Sound (l.enter id) { s with underway := id :: s.underway } :=
  { h with
    builder := h.builder.congr rfl rfl rfl
    records :=
      have r := h.records
      { r with }
    members i hi d hd m hm :=
      have c := h.members i hi d hd m hm
      { c with }
    tracks := by
      refine ⟨h.tracks.referenced, fun x hx => ?_, h.tracks.pending, h.tracks.single⟩
      obtain ⟨i, below, found, made⟩ := h.tracks.announced x hx
      exact ⟨i, below, found, made.imp_right .inr⟩
    underway := fun i hi => by
      rcases mem_cons.1 hi with rfl | hi
      · exact ⟨.inl rfl, hid⟩
      · exact ⟨.inr (h.underway i hi).1, (h.underway i hi).2⟩ }

theorem State.Sound.leave {underway : StructId → Prop} {table : List (Option Nat)} (h : s.Sound l)
    (inside : ∀ x, l.underway x → x = id ∨ underway x) (hd : l.program.struct? id = some d)
    (covered : ∀ m ∈ l.program.presentMembers d, l.Covers m.1.type.basic m.1.type.arrays) :
    State.Sound (l.leave id underway)
      { s with
        underway := s.underway.filter (· != id), memberTables :=
        (id, table) :: s.memberTables } := by
  have wider : ∀ {basic arrays}, l.Covers basic arrays →
      (l.leave id underway).Covers basic arrays :=
    fun c => ⟨c.reference, fun i hi => .inr (c.struct i hi), c.length⟩
  have r := h.records
  exact {
    builder := h.builder.congr rfl rfl rfl
    records := ⟨r.bindings, r.signatures,
      fun key type hk => ⟨(r.structTypes key type hk).1, .inr (r.structTypes key type hk).2⟩,
      r.references, r.pairTypes⟩
    globals := h.globals
    symbols := h.symbols
    typed := fun i => by simp [Ledger.leave, h.typed i, State.typedStructs]
    members := by
      intro i hi e he m hm
      rcases mem_cons.1 hi with rfl | hi
      · cases he.symm.trans hd
        exact wider (covered m hm)
      · exact wider (h.members i hi e he m hm)
    tracks := by
      refine ⟨h.tracks.referenced, fun x hx => ?_, h.tracks.pending, h.tracks.single⟩
      obtain ⟨i, below, found, made⟩ := h.tracks.announced x hx
      refine ⟨i, below, found, ?_⟩
      rcases made with made | made
      · exact .inl (.inr made)
      · exact (inside i made).imp .inl fun u => u
    underway := by
      intro i hi
      obtain ⟨hi, hne⟩ := mem_filter.1 hi
      obtain ⟨made, below⟩ := h.underway i hi
      exact ⟨(inside i made).resolve_left (by simpa using hne), below⟩
    scopes := h.scopes }

theorem Builder.Grows.leave {l' : Ledger} {b' : Builder} (h : b.Grows (l.enter id) l' b') :
    b.Grows l (l'.leave id l.underway) b' :=
  { h with
    underway := rfl
    typed := fun hs x hx => .inr (h.typed hs x hx) }

namespace Codegen

/-- What is asked of a way to get types. -/
def Types (p : Program) (typer : Typer) : Prop :=
  ∀ {w : Stance} r, Learning w [.program p] (typer r) fun t =>
  [.shared t, .covered r.type.basic r.type.arrays]

variable {p : Program} {typer : Typer}

theorem memberTypes_learns (h : Types p typer) (d : StructDecl) (use : StructUse) :
    Learning w [.program p] (memberTypes p typer d use) fun ts => ts.map .shared ++
      (p.presentMembers d).map fun m => .covered m.1.type.basic m.1.type.arrays := by
  unfold memberTypes
  generalize p.presentMembers d = members
  induction members with
  | nil => exact .pure (h := by simp)
  | cons m rest ih =>
    rw [mapM_cons]
    refine .bind (h _) fun t => .bind ih fun ts => .pure (h := ?_)
    simp only [map_cons, entails_append, entails_cons]
    simp

theorem newStructType_learns (h : Types p typer) (hd : p.struct? id = some d)
    (use : StructUse) : Learning w [.program p] (newStructType p typer id d use) fun t =>
      [.shared t, .declared .typeStruct t, .typed id] := by
  refine ⟨?_, .bind (note_learns (fun _ => .note) fun _ _ => rfl) fun _ =>
    .bind (.mapM fun m _ => (h _).acts) fun members =>
    .bind (note_learns (fun _ => .note) fun _ _ => rfl) fun _ =>
    .bind (ensureFits_learns _).acts fun _ =>
    .bind (typeStruct_provides members d.name).silent.up fun type =>
    .bind (use.decorate_provides type p id d).silent.up fun _ => .pure⟩
  intro l s type u sound hold ends
  have program : l.strict → l.program = p := hold _ mem_cons_self
  obtain ⟨_, s1, first, ends⟩ := ends_bind ends
  cases first
  obtain ⟨members, s2, typing, ends⟩ := ends_bind ends
  have sound1 : World.Sound (l.enter id) { s with underway := id :: s.underway } := by
    intro hs
    refine (sound hs).enter ?_
    rw [program hs]
    exact (List.getElem?_eq_some_iff.1 hd).1
  obtain ⟨l2, sound2, grows2, same2, hold2⟩ :=
    (memberTypes_learns h d use).runs (l.enter id) _ members s2
    sound1 (fun φ hφ => mem_singleton.1 hφ ▸ program) typing
  obtain ⟨_, s3, second, ends⟩ := ends_bind ends
  cases second
  have sound3 : World.Sound (l2.leave id l.underway)
      { s2 with
        underway := s2.underway.filter (· != id)
        memberTables := (id, p.numberMembers 0 d.members) :: s2.memberTables } := by
    intro hs
    have program2 : l2.program = p := grows2.program.trans (program (grows2.strict ▸ hs))
    refine (sound2 hs).leave (fun x hx => ?_) (program2 ▸ hd) fun m hm => ?_
    · have : (l.enter id).underway x := grows2.underway ▸ hx
      exact this
    · rw [program2] at hm
      exact hold2 _ (mem_append_right _ (mem_map_of_mem hm)) hs
  have rest : Runs (.typed id :: members.map .shared) (do
      ensureFits (!use.packing.isExplicit || p.layoutFits use.packing d use.rowMajor)
      let type ← typeStruct members d.name
      use.decorate p id d type
      return type : Codegen Ident) fun t => [.shared t, .declared .typeStruct t, .typed id] :=
    .bind (ensureFits_learns _).runs fun _ =>
      .bind (typeStruct_provides members d.name).runs.up fun type =>
      .bind (use.decorate_provides type p id d).runs.up fun _ => .pure
  have facts : Fact.AllHold (l2.leave id l.underway) s2.builder
      (.typed id :: members.map .shared) := by
    intro φ hφ
    rcases mem_cons.1 hφ with rfl | hφ
    · exact fun _ => .inl rfl
    · obtain ⟨t, ht, rfl⟩ := mem_map.1 hφ
      exact hold2 _ (mem_append_left _ (mem_map_of_mem ht))
  obtain ⟨l4, sound4, grows4, same4, hold4⟩ := rest _ _ type u sound3 facts ends
  have first : s.Same s2 := { same2 with }
  have second : s2.Same u := { same4 with }
  exact ⟨l4, sound4, grows2.leave.trans grows4, first.trans second, hold4⟩

theorem structType_learns (h : Types p typer) (id : StructId) (use : StructUse) :
    Learning w [.program p] (structType p typer id use) fun t =>
      [.shared t, .declared .typeStruct t, .typed id] := by
  refine .struct fun d hd => ?_
  refine .lookState (fun _ => rfl) fun s => ?_
  split
  · rename_i type found _
    refine .pure (h := ?_)
    have known : ∀ l b, Fact.AllHold l b [.records s, .tables s.builder, .program p] →
        l.strict → (b.Global l type ∧ b.Declared .typeStruct type) ∧ l.typed id :=
      fun l b hold hs => (hold (.records s) (by simp) hs).structTypes _ type found
    simp only [entails_cons, entails_nil, and_true]
    exact ⟨⟨fun l b hold hs => (known l b hold hs).1.1⟩,
      ⟨fun l b hold hs => (known l b hold hs).1.2⟩, ⟨fun l b hold hs => (known l b hold hs).2⟩⟩
  · refine .bind (newStructType_learns h hd use) fun type => ?_
    have remember : Learning w [.shared type, .declared .typeStruct type, .typed id]
        (modify fun st : State =>
          { st with structTypes := (use.key p id, type) :: st.structTypes } : Codegen PUnit)
        fun _ => [] := by
      refine ⟨?_, .remember (fun _ => .note) fun _ _ => rfl⟩
      refine .tabulate (fun _ => ⟨_, _, _, _, _, rfl⟩) fun l s hs hold r => ?_
      refine ⟨r.bindings, r.signatures, fun key t found => ?_, r.references, r.pairTypes⟩
      rw [lookup_cons] at found
      split at found
      · rename_i same
        cases found
        rw [beq_iff_eq.1 same]
        exact ⟨⟨hold (.shared type) (by simp) hs, hold (.declared .typeStruct type) (by simp) hs⟩,
          hold (.typed id) (by simp) hs⟩
      · exact r.structTypes key t found
    exact .bind remember fun _ => .pure
  · exact (newStructType_learns h hd use).last

end Codegen

end ShaderGen
