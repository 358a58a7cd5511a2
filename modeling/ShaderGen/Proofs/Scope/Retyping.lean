import ShaderGen.Proofs.Scope.Access

/-!
# Typing again what has been typed

A structure can get another type later, for another use. By then everything that its members lead to
has been made: their lengths are bound, and the references among them have pointer types. So typing
it again binds no symbol and announces no pointer type (`Codegen.typeWithin_rests`). That is why
declaring the announced pointer types one after the other ends with none left
(`Codegen.completeReferences_leads`).
-/

namespace ShaderGen

open List
open Steps (Ends ends_bind ends_then)

variable {id : StructId} {l : Ledger}

/-- What decides which symbols and references typing has to make is the same in both states. -/
structure State.Agrees (s t : State) : Prop where
  bindings : t.bindings = s.bindings
  references : t.references = s.references
  typed : ∀ id, id ∈ t.typedStructs ↔ id ∈ s.typedStructs

/-- Nothing that a type leads to is left to be made. -/
structure State.Covers (s : State) (basic : BasicType) (arrays : List ArraySize) : Prop where
  reference : ∀ id, basic = .reference id → (s.references.lookup id).isSome
  struct : ∀ id, basic = .struct id ∨ basic = .block id → id ∈ s.typedStructs
  length : ∀ x, ArraySize.spec x ∈ arrays → (s.bindings.lookup x).isSome

/-- Nothing that the members of typed structures lead to is left to be made. -/
def State.Closed (s : State) (p : Program) : Prop :=
  ∀ id ∈ s.typedStructs, ∀ d, p.struct? id = some d →
    ∀ m ∈ p.presentMembers d, s.Covers m.1.type.basic m.1.type.arrays

theorem State.Sound.covers {s : State} (h : s.Sound l) {basic : BasicType}
    {arrays : List ArraySize} (c : l.Covers basic arrays) : s.Covers basic arrays where
  reference id hid := h.tracks.referenced id (c.reference id hid)
  struct id hid := (h.typed id).1 (c.struct id hid)
  length x hx := h.symbols x (c.length x hx)

theorem State.Sound.closed {s : State} (h : s.Sound l) : s.Closed l.program :=
  fun id hid d hd m hm => h.covers (h.members id hid d hd m hm)

namespace Codegen

/-- Started in a state that agrees with `s`, the step ends in one that does. -/
def Rests (s : State) {α : Type} (c : Codegen α) : Prop :=
  ∀ t a u, s.Agrees t → Ends c t a u → s.Agrees u

section Rules

variable {s : State} {α β : Type}

theorem Rests.pure {a : α} : Rests s (Pure.pure a) := by
  intro t b u h ends
  cases ends
  exact h

theorem Rests.bind {x : Codegen α} {f : α → Codegen β} (hx : Rests s x)
    (hf : ∀ a, Rests s (f a)) : Rests s (x >>= f) := by
  intro t b v h ends
  obtain ⟨a, u, first, second⟩ := ends_bind ends
  exact hf a u b v (hx t a u h first) second

theorem Rests.get {f : State → Codegen β} (hf : ∀ t, s.Agrees t → Rests s (f t)) :
    Rests s (MonadState.get >>= f) :=
  fun t b u h ends => hf t h t b u h ends

theorem Rests.fail {cause : Cause} : Rests s (Codegen.fail cause : Codegen α) :=
  fun _ _ _ _ ends => by cases ends

theorem Rests.ensureFits {fits : Bool} : Rests s (Codegen.ensureFits fits) := by
  unfold Codegen.ensureFits
  split
  · exact .pure
  · exact .fail

theorem Rests.up {c : Emit α} : Rests s (liftM c : Codegen α) := by
  intro t a u h ends
  obtain ⟨b, -, rfl⟩ := ends_lift Emit ends
  exact { h with }

theorem Rests.mapM {f : α → Codegen β} {list : List α} (h : ∀ a ∈ list, Rests s (f a)) :
    Rests s (list.mapM f) := by
  induction list with
  | nil => exact .pure
  | cons a rest ih =>
    rw [mapM_cons]
    exact .bind (h a mem_cons_self) fun r =>
      .bind (ih fun c hc => h c (mem_cons_of_mem a hc)) fun rs => .pure

theorem Rests.struct {p : Program} {f : StructDecl → Codegen β}
    (h : ∀ d, p.struct? id = some d → Rests s (f d)) : Rests s (p.struct id >>= f) := by
  unfold Program.struct
  split
  · exact h _ ‹_›
  · exact fun _ _ _ _ ends => by cases ends

end Rules

variable {s : State} {p : Program} {typer : Typer}

/-- Types that nothing is left to be made for are got without making anything. -/
def Retypes (s : State) (typer : Typer) : Prop :=
  ∀ r : TypeRequest, s.Covers r.type.basic r.type.arrays → Rests s (typer r)

theorem newStructType_rests (closed : s.Closed p) (h : Retypes s typer)
    {d : StructDecl} (typed : id ∈ s.typedStructs) (hd : p.struct? id = some d) (use : StructUse) :
    Rests s (newStructType p typer id d use) := by
  have enter : Rests s (modify fun st => { st with underway := id :: st.underway } :
    Codegen PUnit) := by
    intro t a u agrees ends
    cases ends
    exact { agrees with }
  have leave : Rests s (modify fun st =>
      { st with
        underway := st.underway.filter (· != id)
        memberTables := (id, p.numberMembers 0 d.members) :: st.memberTables } :
          Codegen PUnit) := by
    intro t a u agrees ends
    cases ends
    refine ⟨agrees.bindings, agrees.references, fun i => ?_⟩
    rw [← agrees.typed i, State.typedStructs, map_cons, mem_cons, ← State.typedStructs,
      agrees.typed i]
    exact ⟨fun hi => hi.elim (fun same => same ▸ typed) fun hi => hi, .inr⟩
  have members : Rests s (memberTypes p typer d use) :=
    .mapM fun m hm => h _ (closed id typed d hd m hm)
  exact .bind enter fun _ => .bind members fun ts => .bind leave fun _ =>
    .bind .ensureFits fun _ => .bind .up fun type => .bind .up fun _ => .pure

theorem structType_rests (closed : s.Closed p) (h : Retypes s typer)
    (typed : id ∈ s.typedStructs) (use : StructUse) : Rests s (structType p typer id use) := by
  refine .struct fun d hd => .get fun t _ => ?_
  have new := newStructType_rests closed h typed hd use
  split
  · exact .pure
  · refine .bind new fun type => .bind ?_ fun _ => .pure
    intro t a u agrees ends
    cases ends
    exact { agrees with }
  · exact new

theorem targetType_rests (closed : s.Closed p) (h : Retypes s typer)
    (typed : id ∈ s.typedStructs) : Rests s (targetType p typer id) :=
  .struct fun _ _ => structType_rests closed h typed _

theorem referenceType_rests (found : (s.references.lookup id).isSome) :
    Rests s (referenceType p typer id) := by
  refine .bind .up fun _ => .get fun t agrees => ?_
  rw [agrees.references]
  obtain ⟨r, hr⟩ := Option.isSome_iff_exists.1 found
  rw [hr]
  exact .pure

theorem elementType_rests (closed : s.Closed p) (h : Retypes s typer) {r : TypeRequest}
    (covers : s.Covers r.type.basic []) : Rests s (elementType p typer r) := by
  unfold elementType
  split
  case h_2 =>
    split
    all_goals exact .bind .up fun scalar => .up
  case h_7 hb => exact structType_rests closed h (covers.struct _ (.inl hb)) _
  case h_8 hb => exact structType_rests closed h (covers.struct _ (.inr hb)) _
  case h_11 hb => exact referenceType_rests (covers.reference _ hb)
  case h_1 | h_6 | h_9 => exact .up
  all_goals exact .bind .up fun scalar => .up

theorem arrayOf_rests {size : ArraySize}
    (length : ∀ x, size = .spec x → (s.bindings.lookup x).isSome)
    (element : Ident) (stride : Option Nat) (lastMember : Bool) :
    Rests s (arrayOf p typer size element stride lastMember) := by
  unfold arrayOf
  refine .bind .ensureFits fun _ => ?_
  split
  · exact .bind .up fun n => .up
  · rename_i x
    refine .bind ?_ fun binding => ?_
    · refine .get fun t agrees => ?_
      rw [agrees.bindings]
      obtain ⟨binding, found⟩ := Option.isSome_iff_exists.1 (length x rfl)
      rw [found]
      exact .pure
    · split
      · exact .up
      · exact .fail
  · split
    · exact .bind .up fun _ => .up
    · exact .up

theorem typeWithDimensions_rests (closed : s.Closed p) (h : Retypes s typer) (r : TypeRequest)
    (dimensions : List ArraySize) (covers : s.Covers r.type.basic dimensions) (lastMember : Bool) :
    Rests s (typeWithDimensions p typer r dimensions lastMember) := by
  induction dimensions generalizing lastMember with
  | nil => exact elementType_rests closed h covers
  | cons size inner ih =>
    have last : ∀ element, Rests s (arrayOf p typer size element
        (arrayStride? p r { r.type with arrays := size :: inner }) lastMember) := fun element =>
      arrayOf_rests (fun x hx => covers.length x (hx ▸ mem_cons_self)) element _ lastMember
    have coversInner : s.Covers r.type.basic inner :=
      ⟨covers.reference, covers.struct, fun x hx => covers.length x (mem_cons_of_mem _ hx)⟩
    unfold typeWithDimensions
    split
    · rename_i id hid
      have hb : r.type.basic = .struct id ∨ r.type.basic = .block id := by
        unfold ShaderType.structId? at hid
        split at hid <;> simp_all
      exact .bind (structType_rests closed h (covers.struct id hb) _) last
    · exact .bind (ih coversInner false) last

theorem typeWithin_rests (closed : s.Closed p) (depth : Nat) : Retypes s (typeWithin p depth) := by
  induction depth with
  | zero => exact fun _ _ => .fail
  | succ depth ih => exact fun r covers => typeWithDimensions_rests closed ih r _ covers _

/-! ## Declaring what has been announced -/

variable {l : Ledger} {id : StructId} {x : Ident} {t : State}

/-- While no type is underway, a pointer type that was announced is declared, and nothing else
changes of what is remembered of references. -/
theorem completeReference_leads (sound : World.Sound l s)
    (settled : (Fact.settled p).Holds l s.builder)
    (found : l.strict → s.references.lookup id = some (.announced x))
    (ends : Ends (completeReference p (Codegen.typer p) id x) s () t) :
    Leads l s t [.shared x, .referenced id] ∧
      (l.strict → t.references = (id, .declared x) :: s.references) := by
  obtain ⟨referent, s1, typing, _, s2, completing, setting⟩ := ends_bind₂ ends
  obtain ⟨l1, sound1, grows1, same1, hold1⟩ :=
    Leads.of_runs (targetType_learns (typer_learns p) id).runs
    sound (Fact.allHold_cons (fun hs => (settled hs).1) Fact.allHold_nil) typing
  have agrees : l.strict → s.Agrees s1 := by
    intro hs
    obtain ⟨program, still⟩ := settled hs
    obtain ⟨i, -, foundI, made⟩ :=
      (sound hs).tracks.announced x ((sound hs).tracks.pending id x (found hs))
    have same : i = id := (sound hs).tracks.single i id x foundI (found hs)
    have typed : id ∈ s.typedStructs :=
      ((sound hs).typed id).1 (same ▸ made.resolve_right (still i))
    exact targetType_rests (program ▸ (sound hs).closed)
      (typeWithin_rests (program ▸ (sound hs).closed) _) typed s referent s1
      ⟨rfl, rfl, fun _ => Iff.rfl⟩
      typing
  have strict : l1.strict → l.strict := fun hs => grows1.strict ▸ hs
  have found1 : l1.strict → s1.references.lookup id = some (.announced x) := fun hs => by
    rw [(agrees (strict hs)).references]
    exact found (strict hs)
  obtain ⟨l2, sound2, grows2, same2, hold2⟩ := complete_leads sound1 found1
    (hold1 (.shared referent) (by simp)) (hold1 (.declared .typeStruct referent) (by simp))
    completing setting
  refine ⟨⟨l2, sound2, grows1.trans grows2, same1.trans same2, hold2⟩, fun hs => ?_⟩
  have same : t.references = (id, .declared x) :: s1.references := by
    obtain ⟨b, -, rfl⟩ := ends_lift Build completing
    cases setting
    rfl
  rw [same, (agrees hs).references]

theorem ends_referenceType {type : Ident} (ends : Ends (referenceType p typer id) s type t) :
    ∃ r, t.references.lookup id = some r ∧ r.type = type := by
  obtain ⟨_, s1, -, ends⟩ := ends_bind ends
  replace ends := ends_get ends
  split at ends
  · rename_i r found
    cases ends
    exact ⟨r, found, rfl⟩
  split at ends
  · obtain ⟨y, s3, -, _, s4, setting, ends⟩ := ends_bind₂ ends
    cases setting
    cases ends
    exact ⟨_, lookup_cons_self, rfl⟩
  · obtain ⟨referent, s3, -, s'', s4, -, ends⟩ := ends_bind₂ ends
    have last : ∀ {y : Ident} {u : State}, Ends (do
        setReference id (.declared y)
        return y : Codegen Ident) u type t →
        ∃ r, t.references.lookup id = some r ∧ r.type = type := by
      intro y u ends
      obtain ⟨_, s5, setting, ends⟩ := ends_bind ends
      cases setting
      cases ends
      exact ⟨_, lookup_cons_self, rfl⟩
    split at ends
    · obtain ⟨_, s5, -, ends⟩ := ends_bind ends
      exact last ends
    · exact last ends
    · obtain ⟨y, s5, -, ends⟩ := ends_bind ends
      exact last ends

theorem pointee_runs (id : StructId) (type : Ident) : Runs [] (do
    match (← builder).pointee? type with
    | some pointee => return pointee
    | none => fail (.noPointee id) : Codegen Ident) ([.shared ·]) := by
  refine .bind .builder fun b => ?_
  split
  · exact .pure (h := by simpa using Builder.gives_pointee ‹_›)
  · exact .fail

theorem followReference_runs (p : Program) (id : StructId) :
    Runs [.settled p] (followReference p (Codegen.typer p) id) ([.shared ·]) := by
  intro l s pointee u sound hold ends
  obtain ⟨type, s1, referring, ends⟩ := ends_bind ends
  obtain ⟨r, found, rfl⟩ := ends_referenceType referring
  obtain ⟨l1, sound1, grows1, same1, hold1⟩ :=
    (referenceType_learns (typer_learns p) id).runs l s _ s1 sound
    (Fact.allHold_cons (fun hs => (hold (.settled p) (by simp) hs).1) Fact.allHold_nil) referring
  have settled : (Fact.settled p).Holds l1 s1.builder :=
    (hold (.settled p) (by simp)).mono grows1
  replace ends := ends_get ends
  rw [found] at ends
  cases r with
  | declared type =>
    obtain ⟨l3, sound3, grows3, same3, hold3⟩ :=
      pointee_runs id type l1 s1 pointee u sound1 Fact.allHold_nil ends
    exact ⟨l3, sound3, grows1.trans grows3, same1.trans same3, hold3⟩
  | announced type =>
    obtain ⟨_, s2, ⟨⟨l2, sound2, grows2, same2, -⟩, -⟩, ends⟩ :=
      ends_then (completeReference_leads sound1 settled (fun _ => found)) ends
    obtain ⟨l3, sound3, grows3, same3, hold3⟩ :=
      pointee_runs id type l2 s2 pointee u sound2 Fact.allHold_nil ends
    exact ⟨l3, sound3, (grows1.trans grows2).trans grows3, (same1.trans same2).trans same3, hold3⟩

theorem completeAll_leads {list : List (StructId × Ident)} (sound : World.Sound l s)
    (settled : (Fact.settled p).Holds l s.builder) (distinct : (list.map Prod.fst).Nodup)
    (found : l.strict → ∀ q ∈ list, s.references.lookup q.1 = some (.announced q.2))
    (ends : Ends (list.forM fun q => completeReference p (Codegen.typer p) q.1 q.2) s () t) :
    Leads l s t [] ∧ (l.strict → ∀ id x, t.references.lookup id = some (.announced x) →
      s.references.lookup id = some (.announced x) ∧ id ∉ list.map Prod.fst) := by
  induction list generalizing l s with
  | nil =>
    cases ends
    exact ⟨⟨l, sound, .refl l _, .refl _, Fact.allHold_nil⟩, fun _ _ _ h => ⟨h, by simp⟩⟩
  | cons q rest ih =>
    obtain ⟨_, s1, first, ends⟩ := ends_bind ends
    obtain ⟨new, distinctRest⟩ := nodup_cons.1 distinct
    obtain ⟨⟨l1, sound1, grows1, same1, -⟩, references⟩ := completeReference_leads sound settled
      (fun hs => found hs q mem_cons_self) first
    have strict : l1.strict → l.strict := fun hs => grows1.strict ▸ hs
    have found1 : l1.strict → ∀ q' ∈ rest, s1.references.lookup q'.1 = some (.announced q'.2) := by
      intro hs q' hq'
      have other : q'.1 ≠ q.1 := fun same => new (same ▸ mem_map_of_mem hq')
      rw [references (strict hs), lookup_cons_of_ne other]
      exact found (strict hs) q' (mem_cons_of_mem q hq')
    obtain ⟨⟨l2, sound2, grows2, same2, hold2⟩, left⟩ :=
      ih sound1 (settled.mono grows1) distinctRest found1 ends
    refine ⟨⟨l2, sound2, grows1.trans grows2, same1.trans same2, hold2⟩, fun hs i x hi => ?_⟩
    obtain ⟨hi, notRest⟩ := left (grows1.strict ▸ hs) i x hi
    rw [references hs] at hi
    by_cases same : i = q.1
    · rw [same, lookup_cons_self] at hi
      cases hi
    · rw [lookup_cons_of_ne same] at hi
      exact ⟨hi, by simpa [same] using notRest⟩

theorem mem_openReferences {q : StructId × Ident} (h : q ∈ openReferences p s) :
    s.references.lookup q.1 = some (.announced q.2) := by
  obtain ⟨i, -, hi⟩ := mem_filterMap.1 h
  split at hi
  · cases hi
    assumption
  · cases hi

theorem nodup_openReferences (p : Program) (s : State) :
    ((openReferences p s).map Prod.fst).Nodup := by
  rw [List.Nodup, pairwise_map, openReferences, pairwise_filterMap]
  refine List.Pairwise.imp ?_ nodup_range
  intro i j differ q hq q' hq'
  split at hq <;> cases hq
  split at hq' <;> cases hq'
  exact differ

theorem completeReferences_leads (sound : World.Sound l s)
    (settled : (Fact.settled p).Holds l s.builder)
    (ends : Ends (completeReferences p (Codegen.typer p)) s () t) :
    ∃ l', World.Sound l' t ∧ s.builder.Grows l l' t.builder ∧ s.Same t ∧
      (l'.strict → ∀ x, (x, Role.pointer) ∉ l'.owed) := by
  replace ends := ends_get ends
  obtain ⟨⟨l', sound', grows, same, -⟩, left⟩ := completeAll_leads sound settled
    (nodup_openReferences p s) (fun _ q hq => mem_openReferences hq) ends
  refine ⟨l', sound', grows, same, fun hs x hx => ?_⟩
  have hs0 : l.strict := grows.strict ▸ hs
  obtain ⟨id, below, found, -⟩ := (sound' hs).tracks.announced x hx
  obtain ⟨foundBefore, notOpen⟩ := left hs0 id x found
  refine notOpen (mem_map.2 ⟨(id, x), ?_, rfl⟩)
  rw [grows.program, (settled hs0).1] at below
  exact mem_filterMap.2 ⟨id, mem_range.2 below, by simp [foundBefore]⟩

end Codegen

end ShaderGen
