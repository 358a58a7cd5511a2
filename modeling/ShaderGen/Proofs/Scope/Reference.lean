import ShaderGen.Proofs.Scope.Typing

/-!
# Pointer types that are announced

A pointer type that is only announced is owed, and the structure it is for has a type or is about to
get one. Declaring it pays the id back.
-/

namespace ShaderGen

open Builder List Instruction
open Steps (Ends ends_bind ends_then)

variable {l' : Ledger} {types : List (Ident × TypeForm)} {t : State} {w : Stance}
  {storage : StorageClass}

/-! ## Announcing -/

namespace Builder

variable {l : Ledger} {b b' : Builder} {x : Ident}

/-- A builder in which a pointer type has been announced. -/
def announced (b : Builder) (storage : StorageClass) (types : List (Ident × TypeForm)) : Builder :=
  { b with
    output.bound := b.output.bound + 1
    output.globals := b.output.globals ++ [.announcement b.output.bound storage]
    types }

theorem ends_announcePointer
    (h : Ends (announcePointer storage) b x b') : x = b.output.bound ∧ ∃ types,
      b' = b.announced storage types ∧
      (types = b.types ∨ types = (x, .pointer storage none) :: b.types) := by
  obtain ⟨y, b1, hfresh, h⟩ := ends_bind h
  cases hfresh
  obtain ⟨_, b2, happend, h⟩ := ends_bind h
  cases happend
  obtain ⟨_, b3, hrecord, h⟩ := ends_bind h
  cases h
  cases hrecord
  refine ⟨rfl, ?_⟩
  dsimp only
  split
  · exact ⟨_, rfl, .inl rfl⟩
  · exact ⟨_, rfl, .inr rfl⟩

theorem announcePointer_silent (storage : StorageClass) : Silent w (announcePointer storage) :=
  .bind fresh_silent fun _ => .bind (appendGlobal_silent _) fun _ => .bind
    (alter_silent (fun b => by split <;> exact ⟨rfl, rfl, rfl⟩)
    fun b => by simp only [apply_ite stripped]; rfl)
    fun _ => .pure

theorem grows_announced (sound : l.strict → b.Sound l) (storage : StorageClass)
    (types : List (Ident × TypeForm)) (avail : Ident → Prop) :
    b.Grows l (l.owe b.output.bound .pointer avail) (b.announced storage types) := by
  have code : b.handOut.SameCode (b.announced storage types) := ⟨rfl, rfl, rfl⟩
  exact (grows_owe sound avail).trans
    (code.grows (Nat.le_refl _) (fun _ => id) fun _ => mem_append_left _)

theorem form?_announced {place : StorageClass}
    (htypes : types = b.types ∨ types = (b.output.bound, .pointer storage none) :: b.types)
    (hx : (b.announced storage types).form? x = some (.pointer place none)) :
    (x = b.output.bound ∧ place = storage) ∨ b.form? x = some (.pointer place none) := by
  rcases htypes with rfl | rfl
  · exact .inr hx
  · simp only [form?, announced, lookup_cons] at hx
    split at hx
    · cases hx
      exact .inl ⟨beq_iff_eq.1 ‹_›, rfl⟩
    · exact .inr hx

/-- The announced pointer type is the only one that is newly expected. -/
theorem Sound.orderly_announced (sound : b.Sound l)
    (htypes : types = b.types ∨ types = (b.output.bound, .pointer storage none) :: b.types) :
    (b.announced storage types).Orderly (l.owe b.output.bound .pointer fun _ => False) where
  arranged := by
    refine sound.order.arranged.push fun x hx => .inr (.inl ?_)
    obtain rfl : x = b.output.bound := by
      simpa [announcement, refs, ids] using hx
    simp [announcedIds, announcement, ids]
  answered := by
    refine sound.order.answered.push (fun x place waiting => .inl ⟨?_, fun c hc => ?_⟩) fun _ =>
      ⟨b.output.bound, storage, rfl, mem_cons_self, fun c hc => ?_⟩
    · exact mem_cons_of_mem _ waiting.1
    · rcases form?_announced htypes hc with ⟨rfl, -⟩ | old
      · exact absurd (.inl (mem_map_of_mem waiting.1)) sound.not_placed_bound
      · exact waiting.2 c old
    · rcases form?_announced htypes hc with ⟨-, rfl⟩ | old
      · rfl
      · have owed := sound.announced _ _ old
        exact absurd (.inl (mem_map_of_mem owed)) sound.not_placed_bound
  owed x hx := by
    rw [show (b.announced storage types).output.globals = b.output.globals ++
      [.announcement b.output.bound storage] from rfl, announcedIds_append, mem_append]
    rcases mem_cons.1 hx with hx | hx
    · cases hx
      simp [announcedIds, announcement, ids]
    · exact .inl (sound.order.owed x hx)
  older := forall_mem_append.2 ⟨sound.order.older, by simp [TypeFirst, announcement]⟩

theorem Sound.announce (sound : b.Sound l) (hs : l.strict)
    (htypes : types = b.types ∨ types = (b.output.bound, .pointer storage none) :: b.types) :
    (b.announced storage types).Sound (l.owe b.output.bound .pointer fun _ => False) := by
  have owed := sound.toScoped.owe .pointer (fun _ => False) fun _ _ _ => False.elim
  have new : (b.output.bound, Role.pointer) ∈ (l.owe b.output.bound .pointer fun _ => False).owed :=
    mem_cons_self
  have code : b.handOut.SameCode (b.announced storage types) := ⟨rfl, rfl, rfl⟩
  have grows : b.handOut.Grows (l.owe b.output.bound .pointer fun _ => False)
      (l.owe b.output.bound .pointer fun _ => False) (b.announced storage types) :=
    code.grows (Nat.le_refl _) (fun _ => id) fun _ => mem_append_left _
  have ids : (b.announced storage types).output.ids = b.handOut.output.ids := by
    simp [Module.ids, handOut, Builder.announced, announcement]
  refine ⟨code.staysScoped grows hs owed (owed.carry (grows.shared hs) (grows.placed hs)
    ⟨rfl, rfl, rfl, rfl⟩ ?_ ?_) (ids ▸ owed.distinct) ?_, sound.orderly_announced htypes⟩
  · intro x hx
    have old : x ∈ b.handOut.remembered := by
      rcases htypes with rfl | rfl
      · exact hx
      · simpa [remembered, handOut, Builder.announced] using hx
    exact grows.global hs x (owed.remembered x old)
  · intro x place hx
    rcases form?_announced htypes hx with ⟨rfl, -⟩ | old
    · exact new
    · exact owed.announced x place old
  · exact fun x hx => owed.below x (by rwa [Placed, ids] at hx)

/-! ## Declaring what was announced -/

/-- A builder in which an announced pointer type has been declared. -/
def completed (b : Builder) (x : Ident) (storage : StorageClass) (pointee : Ident) : Builder :=
  { b with
    output.globals := b.output.globals ++ [.pointerType x storage pointee]
    types := (x, .pointer storage (some pointee)) :: b.types }

section Complete

variable {x pointee : Ident} {storage : StorageClass} {y : Ident}

theorem ends_completePointer {u : Unit} (h : Ends (completePointer x pointee) b u b') :
    ∃ storage, b.form? x = some (.pointer storage none) ∧ b' = b.completed x storage pointee := by
  replace h := ends_get h
  split at h
  · cases h
    exact ⟨_, ‹_›, rfl⟩
  · cases h

theorem completePointer_silent (x pointee : Ident) : Silent w (completePointer x pointee) := by
  refine .lookBuild (fun _ => rfl) fun b => ?_
  split
  · refine .bind (Silent.lift (appendGlobal_silent _)) fun _ => ?_
    exact .alterBuild (fun _ => ⟨rfl, rfl, rfl⟩) (fun _ => SameCode.stands ⟨rfl, rfl, rfl⟩)
      fun _ => rfl
  · exact .failBuild rfl

theorem results_completed :
    results (b.completed x storage pointee).output.globals = results b.output.globals ++ [x] := by
  simp [completed, pointerType]

theorem Sound.global_completed (sound : b.Sound l) (hx : (x, Role.pointer) ∈ l.owed)
    (h : b.Global l y) : (b.completed x storage pointee).Global (l.settle x .pointer) y := by
  by_cases same : y = x
  · exact .inl (by simp [results_completed, same])
  · exact h.imp (fun h => by simp [results_completed, h]) fun h => (sound.mem_settle hx).2 ⟨h, same⟩

theorem Sound.shared_completed (sound : b.Sound l) (hx : (x, Role.pointer) ∈ l.owed)
    (h : b.Shared l y) : (b.completed x storage pointee).Shared (l.settle x .pointer) y := by
  by_cases same : y = x
  · subst same
    exact .inr (.inl (by simp [results_completed]))
  rcases h with h | h | h | h | h | h
  · exact .inl h
  · exact .inr (.inl (by simp [results_completed, h]))
  · exact .inr (.inr (.inl ((sound.mem_settle hx).2 ⟨h, same⟩)))
  · exact .inr (.inr (.inr (.inl ((sound.mem_settle hx).2 ⟨h, same⟩))))
  · exact .inr (.inr (.inr (.inr (.inl h))))
  · exact .inr (.inr (.inr (.inr (.inr h))))

theorem ids_completed : (b.completed x storage pointee).output.ids.Perm (x :: b.output.ids) := by
  have middle : (b.output.imports.map Prod.fst ++ results b.output.globals
      ++ x :: b.output.functions.flatMap Function.ids).Perm (x :: b.output.ids) :=
    perm_middle
  simpa [Module.ids, completed, pointerType] using middle

theorem grows_completed (sound : l.strict → b.Sound l)
    (hx : l.strict → (x, Role.pointer) ∈ l.owed) :
    b.Grows l (l.settle x .pointer) (b.completed x storage pointee) := by
  have shared : l.strict → ∀ y, b.Shared l y →
      (b.completed x storage pointee).Shared (l.settle x .pointer) y :=
    fun hs _ => (sound hs).shared_completed (hx hs)
  have fixed : l.strict → ∀ y, b.Fixed l y →
      (b.completed x storage pointee).Fixed (l.settle x .pointer) y :=
    fun hs y hy => hy.imp_left (shared hs y)
  exact { Grows.refl l b with
    declared := fun _ => mem_append_left _
    global := fun hs _ => (sound hs).global_completed (hx hs)
    shared := shared
    fixed := fixed
    placed := fun hs y hy => by
      have ids : (b.completed x storage pointee).output.ids.Perm (x :: b.output.ids) :=
        ids_completed
      exact mem_append.1 ((perm_settle_append (hx hs) ids).mem_iff.2 (mem_append.2 hy))
    label := fun _ _ hy =>
      hy.imp_left (Ledger.mem_settle_of_ne (by simp)).2
    leaves := fun hs _ _ ht => ht.mono rfl (Nat.le_refl _) (shared hs) rfl
    functions := fun _ _ => Ledger.mem_settle_of_ne (by simp)
    known := fun hs y hy => hy.imp_left (fixed hs y)
    owed := fun _ _ => Ledger.mem_settle_of_ne (by simp) }

theorem Sound.orderly_completed (sound : b.Sound l) (hx : (x, Role.pointer) ∈ l.owed)
    (form : b.form? x = some (.pointer storage none)) (declared : b.Declared .typeStruct pointee) :
    (b.completed x storage pointee).Orderly (l.settle x .pointer) where
  arranged := by
    refine sound.order.arranged.push fun y hy => .inl ?_
    obtain rfl : y = pointee := by
      simpa [pointerType, refs, ids] using hy
    obtain ⟨i, hi, -, result⟩ := declared
    exact mem_filterMap.2 ⟨i, hi, result⟩
  answered := by
    refine sound.order.answered.push (fun y place waiting => ?_) (by simp [pointerType])
    by_cases same : y = x
    · subst same
      obtain rfl := waiting.2 storage form
      exact .inr ⟨pointee, rfl, declared⟩
    · refine .inl ⟨(sound.mem_settle hx).2 ⟨waiting.1, same⟩, fun c hc => waiting.2 c ?_⟩
      simpa only [form?, completed, lookup_cons_of_ne same] using hc
  owed y hy := by
    have old := sound.order.owed y ((sound.mem_settle hx).1 hy).1
    rw [show (b.completed x storage pointee).output.globals = b.output.globals ++
      [.pointerType x storage pointee] from rfl, announcedIds_append]
    exact mem_append_left _ old
  older := forall_mem_append.2 ⟨sound.order.older, by simp [TypeFirst, pointerType]⟩

theorem Sound.completed (sound : b.Sound l) (hs : l.strict) (hx : (x, Role.pointer) ∈ l.owed)
    (form : b.form? x = some (.pointer storage none)) (global : b.Global l pointee)
    (declared : b.Declared .typeStruct pointee) :
    (b.completed x storage pointee).Sound (l.settle x .pointer) := by
  have grows : b.Grows l (l.settle x .pointer) (b.completed x storage pointee) :=
    grows_completed (fun _ => sound) fun _ => hx
  have placed : ∀ y, (b.completed x storage pointee).Placed (l.settle x .pointer) y →
    b.Placed l y := by
    have ids : (b.completed x storage pointee).output.ids.Perm (x :: b.output.ids) := ids_completed
    exact fun y hy => mem_append.1 ((perm_settle_append hx ids).mem_iff.1 (mem_append.2 hy))
  have code : b.SameCode (b.completed x storage pointee) := ⟨rfl, rfl, rfl⟩
  refine ⟨code.keepsScoped sound.toScoped (grows.shared hs) (grows.label hs) (fun _ _ => rfl)
    (fun f hf => (sound.asks f hf).mono (grows.shared hs) fun _ => id)
    (sound.carry (grows.shared hs) (grows.placed hs) ⟨rfl, rfl, rfl, rfl⟩ ?_ ?_)
    ((perm_settle_append hx ids_completed).nodup_iff.2 sound.distinct)
    fun y hy => sound.below y (placed y hy), sound.orderly_completed hx form declared⟩
  · intro y hy
    have old : y = pointee ∨ y ∈ b.remembered := by
      simpa [remembered, Builder.completed, or_assoc] using hy
    rcases old with rfl | old
    · exact grows.global hs _ global
    · exact grows.global hs _ (sound.remembered y old)
  · intro y place hy
    simp only [form?, Builder.completed, lookup_cons] at hy
    split at hy
    · cases hy
    · rename_i differ
      exact (sound.mem_settle hx).2 ⟨sound.announced y place hy, by simpa using differ⟩

end Complete

end Builder

/-! ## Pointer types for references -/

section References

variable {l : Ledger} {s : State} {id : StructId} {x : Ident} {b' : Builder}

/-- The ledger when the pointer type for references to a structure has been announced. -/
def Ledger.announce (l : Ledger) (id : StructId) (x : Ident) : Ledger :=
  { l.owe x .pointer fun _ => False with referenced := fun i => i = id ∨ l.referenced i }

theorem Ledger.Tracks.announce (h : l.Tracks s.references) (none : s.references.lookup id = none)
    (below : id < l.program.structs.length) (made : l.underway id)
    (new : (x, Role.pointer) ∉ l.owed) :
    (l.announce id x).Tracks ((id, .announced x) :: s.references) := by
  have other : ∀ {i r}, s.references.lookup i = some r →
      ((id, .announced x) :: s.references).lookup i = some r := by
    intro i r hi
    rw [lookup_cons_of_ne fun same => by simp [same, none] at hi]
    exact hi
  -- an entry is the new one or an old one
  have cases : ∀ {i y}, ((id, .announced x) :: s.references).lookup i = some (.announced y) →
      (i = id ∧ y = x) ∨ (i ≠ id ∧ s.references.lookup i = some (.announced y)) := by
    intro i y hi
    by_cases same : i = id
    · subst same
      rw [lookup_cons_self] at hi
      cases hi
      exact .inl ⟨rfl, rfl⟩
    · rw [lookup_cons_of_ne same] at hi
      exact .inr ⟨same, hi⟩
  refine ⟨fun i hi => ?_, fun y hy => ?_, fun i y hi => ?_, fun i j y hi hj => ?_⟩
  · by_cases same : i = id
    · subst same
      rw [lookup_cons_self]
      rfl
    · rw [lookup_cons_of_ne same]
      exact h.referenced i (hi.resolve_left same)
  · rcases mem_cons.1 hy with hy | hy
    · cases hy
      exact ⟨id, below, lookup_cons_self, .inr made⟩
    · obtain ⟨i, hi, found, typed⟩ := h.announced y hy
      exact ⟨i, hi, other found, typed⟩
  · rcases cases hi with ⟨-, rfl⟩ | ⟨-, oldI⟩
    · exact mem_cons_self
    · exact mem_cons_of_mem _ (h.pending i y oldI)
  · rcases cases hi with ⟨rfl, rfl⟩ | ⟨-, oldI⟩ <;> rcases cases hj with ⟨rfl, same⟩ | ⟨-, oldJ⟩
    · rfl
    · exact absurd (h.pending j _ oldJ) new
    · exact absurd (same ▸ h.pending i y oldI) new
    · exact h.single i j y oldI oldJ

theorem Ledger.Tracks.declare (h : l.Tracks s.references) (x : Ident)
    (program : l'.program = l.program) (typed : l'.typed = l.typed)
    (underway : l'.underway = l.underway)
    (referenced : ∀ i, l'.referenced i → i = id ∨ l.referenced i)
    (settled : ∀ y, (y, Role.pointer) ∈ l'.owed ↔
      (y, Role.pointer) ∈ l.owed ∧ s.references.lookup id ≠ some (.announced y)) :
    l'.Tracks ((id, .declared x) :: s.references) := by
  have cases : ∀ {i y}, ((id, .declared x) :: s.references).lookup i = some (.announced y) →
      i ≠ id ∧ s.references.lookup i = some (.announced y) := by
    intro i y hi
    by_cases same : i = id
    · subst same
      rw [lookup_cons_self] at hi
      cases hi
    · rw [lookup_cons_of_ne same] at hi
      exact ⟨same, hi⟩
  refine ⟨fun i hi => ?_, fun y hy => ?_, fun i y hi => ?_, fun i j y hi hj => ?_⟩
  · by_cases same : i = id
    · subst same
      rw [lookup_cons_self]
      rfl
    · rw [lookup_cons_of_ne same]
      exact h.referenced i ((referenced i hi).resolve_left same)
  · obtain ⟨hy, differ⟩ := (settled y).1 hy
    obtain ⟨i, hi, foundI, made⟩ := h.announced y hy
    have other : i ≠ id := fun same => differ (same ▸ foundI)
    exact ⟨i, program ▸ hi, (lookup_cons_of_ne other _ _).trans foundI, typed ▸ underway ▸ made⟩
  · obtain ⟨differ, oldI⟩ := cases hi
    exact (settled y).2 ⟨h.pending i y oldI, fun found => differ (h.single i id y oldI found)⟩
  · exact h.single i j y (cases hi).2 (cases hj).2

theorem State.Records.declare (h : s.Records l s.builder) (hs : l.strict)
    (follows : s.builder.Follows l l' b') (global : b'.Global l' x) (referenced : l'.referenced id)
    (i : StructId) (r : ReferencePointer)
    (found : ((id, ReferencePointer.declared x) :: s.references).lookup i = some r) :
    b'.Global l' r.type ∧ l'.referenced i := by
  by_cases same : i = id
  · subst same
    rw [lookup_cons_self] at found
    cases found
    exact ⟨global, referenced⟩
  · rw [lookup_cons_of_ne same] at found
    obtain ⟨old, referenced⟩ := h.references i r found
    exact ⟨follows.global hs _ old, follows.referenced hs _ referenced⟩

theorem Builder.Grows.widen {l : Ledger} {b : Builder} (h : b.Grows l l' b')
    {bound : SymbolId → Prop} {referenced : StructId → Prop} (hb : ∀ x, l'.bound x → bound x)
    (hr : ∀ i, l'.referenced i → referenced i) : b.Grows l { l' with bound, referenced } b' :=
  { h with
    symbols := fun hs x hx => hb x (h.symbols hs x hx)
    referenced := fun hs i hi => hr i (h.referenced hs i hi) }

/-- A step from one state to another one keeps the ledger, and the facts hold after it. -/
def Leads (l : Ledger) (s t : State) (facts : List Fact) : Prop :=
  ∃ l', World.Sound l' t ∧ s.builder.Grows l l' t.builder ∧ s.Same t ∧
    Fact.AllHold l' t.builder facts

theorem Leads.of_runs {α : Type} {before : List Fact} {c : Codegen α} {after : α → List Fact}
    (h : Runs before c after) {a : α} (sound : World.Sound l s)
    (hold : Fact.AllHold l s.builder before) (ends : Ends c s a t) : Leads l s t (after a) :=
  h l s a t sound hold ends

theorem Codegen.announceReference_leads (sound : World.Sound l s)
    (none : s.references.lookup id = none)
    (made : l.strict → l.underway id ∧ id < l.program.structs.length)
    (ends : Ends (announceReference id) s x t) : Leads l s t [.shared x, .referenced id] := by
  obtain ⟨y, s1, ⟨b, inner, rfl⟩, ends⟩ := ends_then (ends_lift Emit) ends
  obtain ⟨rfl, types, rfl, htypes⟩ := ends_announcePointer inner
  obtain ⟨_, s2, setting, ends⟩ := ends_bind ends
  cases setting
  cases ends
  have soundB : l.strict → s.builder.Sound l := fun hs => (sound hs).builder
  have grows : s.builder.Grows l (l.announce id s.builder.output.bound)
      (s.builder.announced .physicalStorageBuffer types) :=
    (grows_announced soundB _ types _).widen (fun _ h => h) fun _ => .inr
  have global : Global (l.announce id s.builder.output.bound)
      (s.builder.announced .physicalStorageBuffer types) s.builder.output.bound :=
    .inr mem_cons_self
  refine ⟨l.announce id s.builder.output.bound, fun hs => ?_, grows,
    ⟨rfl, rfl, rfl, .same rfl rfl (Nat.le_succ _)⟩,
    Fact.allHold_cons (fun _ => global) (Fact.allHold_cons (fun _ => .inl rfl) Fact.allHold_nil)⟩
  have new : (s.builder.output.bound, Role.pointer) ∉ l.owed :=
    fun h => (soundB hs).not_placed_bound (.inl (mem_map_of_mem h))
  refine (sound hs).refer hs (((soundB hs).announce hs htypes).congr rfl rfl rfl) grows rfl rfl
    (fun i r found => ?_) ((sound hs).tracks.announce none (made hs).2 (made hs).1 new)
  by_cases same : i = id
  · subst same
    rw [lookup_cons_self] at found
    cases found
    exact ⟨global, .inl rfl⟩
  · rw [lookup_cons_of_ne same] at found
    obtain ⟨old, referenced⟩ := (sound hs).records.references i r found
    exact ⟨grows.global hs _ old, .inr referenced⟩

theorem Codegen.complete_leads {referent : Ident} {s1 : State} (sound : World.Sound l s)
    (found : l.strict → s.references.lookup id = some (.announced x))
    (global : l.strict → s.builder.Global l referent)
    (declared : l.strict → s.builder.Declared .typeStruct referent)
    (completing : Ends (liftM (completePointer x referent) : Codegen Unit) s () s1)
    (setting : Ends (setReference id (.declared x)) s1 () t) :
    Leads l s t [.shared x, .referenced id] := by
  obtain ⟨b, inner, rfl⟩ := ends_lift Build completing
  obtain ⟨storage, form, rfl⟩ := ends_completePointer inner
  cases setting
  have soundB : l.strict → s.builder.Sound l := fun hs => (sound hs).builder
  have owed : l.strict → (x, Role.pointer) ∈ l.owed :=
    fun hs => (sound hs).tracks.pending id x (found hs)
  have grows : s.builder.Grows l (l.settle x .pointer) (s.builder.completed x storage referent) :=
    grows_completed soundB owed
  have referenced : l.strict → (l.settle x .pointer).referenced id :=
    fun hs => ((sound hs).records.references id _ (found hs)).2
  have own : (s.builder.completed x storage referent).Global (l.settle x .pointer) x :=
    .inl (by simp [results_completed])
  refine ⟨l.settle x .pointer, fun hs => ?_, grows, ⟨rfl, rfl, rfl, .same rfl rfl (Nat.le_refl _)⟩,
    Fact.allHold_cons (fun _ => own) (Fact.allHold_cons referenced Fact.allHold_nil)⟩
  refine (sound hs).refer hs
    ((soundB hs).completed hs (owed hs) form (global hs) (declared hs)) grows rfl rfl
    ((sound hs).records.declare hs grows.toFollows own (referenced hs))
    ((sound hs).tracks.declare x rfl rfl rfl (fun _ => .inr) fun y => ?_)
  rw [(soundB hs).mem_settle (owed hs), found hs]
  simp [eq_comm]

theorem Codegen.setReference_leads (sound : World.Sound l s)
    (global : l.strict → s.builder.Global l x)
    (notAnnounced : l.strict → ∀ y, s.references.lookup id ≠ some (.announced y))
    (setting : Ends (setReference id (.declared x)) s () t) :
    Leads l s t [.shared x, .referenced id] := by
  cases setting
  have grows : s.builder.Grows l { l with referenced := fun i => i = id ∨ l.referenced i }
      s.builder := (Grows.refl l s.builder).widen (fun _ h => h) fun _ => .inr
  refine ⟨_, fun hs => ?_, grows, ⟨rfl, rfl, rfl, .refl _ _⟩,
    Fact.allHold_cons global (Fact.allHold_cons (fun _ => .inl rfl) Fact.allHold_nil)⟩
  exact (sound hs).refer hs ((sound hs).builder.congr rfl rfl rfl) grows rfl rfl
    ((sound hs).records.declare hs grows.toFollows (global hs) (.inl rfl))
    ((sound hs).tracks.declare x rfl rfl rfl (fun _ h => h) fun y =>
      ⟨fun hy => ⟨hy, notAnnounced hs y⟩, And.left⟩)

namespace Codegen

variable {p : Program} {typer : Typer}

theorem targetType_learns (h : Types p typer) (id : StructId) :
    Learning w [.program p] (targetType p typer id) fun t =>
      [.shared t, .declared .typeStruct t, .typed id] :=
  .struct fun d _ => structType_learns h id d.referentUse

theorem declareReference_learns (h : Types p typer) (id : StructId) :
    Learning w [.program p] (declareReference p typer id) fun t => [.shared t, .referenced id] := by
  refine .bind (targetType_learns h id) fun referent => ⟨?_, .lookState (fun _ => rfl) fun s => ?_⟩
  on_goal 2 =>
    have rest : ∀ type, Keeps w State.Learns (do
        setReference id (.declared type)
        return type : Codegen Ident) :=
      fun type => .bind (note_learns (fun _ => .note) fun _ _ => rfl) fun _ => .pure
    split
    · exact .bind (completePointer_silent _ _).up fun _ => rest _
    · exact rest _
    · exact .bind (typePointer_provides _ _).silent.up fun _ => rest _
  intro l s type t sound hold ends
  have global : l.strict → s.builder.Global l referent := hold (.shared referent) (by simp)
  replace ends := ends_get ends
  split at ends
  · rename_i announced found
    obtain ⟨_, s2, completing, ends⟩ := ends_bind ends
    rw [pure_bind] at ends
    obtain ⟨_, s3, setting, ends⟩ := ends_bind ends
    cases ends
    exact complete_leads sound (fun _ => found) global
      (hold (.declared .typeStruct referent) (by simp)) completing setting
  · rename_i declared found
    rw [pure_bind] at ends
    obtain ⟨_, s2, setting, ends⟩ := ends_bind ends
    cases ends
    exact setReference_leads sound (fun hs => ((sound hs).records.references id _ found).1)
      (fun _ y => by simp [found]) setting
  · rename_i absent
    obtain ⟨x, s2, making, _, s3, setting, ends⟩ := ends_bind₂ ends
    cases ends
    have pointer : Runs [.shared referent]
        (liftM (typePointer .physicalStorageBuffer referent) : Codegen Ident)
        ([.shared ·]) := (typePointer_provides _ referent).runs.up
    have references : s2.references = s.references := by
      obtain ⟨b, -, rfl⟩ := ends_lift Emit making
      rfl
    obtain ⟨l2, sound2, grows2, same2, hold2⟩ := Leads.of_runs pointer sound
      (Fact.allHold_cons global Fact.allHold_nil) making
    obtain ⟨l3, sound3, grows3, same3, hold3⟩ := setReference_leads sound2
      (hold2 (.shared type) (by simp)) (fun _ y => by simp [references, absent]) setting
    exact ⟨l3, sound3, grows2.trans grows3, same2.trans same3, hold3⟩

theorem referenceType_learns (h : Types p typer) (id : StructId) :
    Learning w [.program p] (referenceType p typer id) fun t => [.shared t, .referenced id] := by
  refine .bind usePhysicalAddresses_provides.up fun _ => ⟨?_, .lookState (fun _ => rfl) fun s => ?_⟩
  on_goal 2 =>
    split
    · exact .pure
    · split
      · exact .bind (announcePointer_silent _).up fun _ =>
          .bind (note_learns (fun _ => .note) fun _ _ => rfl) fun _ => .pure
      · exact (declareReference_learns h id).acts
  intro l s type t sound hold ends
  have program : l.strict → l.program = p := hold (.program p) (by simp)
  replace ends := ends_get ends
  split at ends
  · rename_i r found
    cases ends
    have known := fun hs => (sound hs).records.references id r found
    exact ⟨l, sound, .refl l _, .refl _, Fact.allHold_cons (fun hs => (known hs).1)
      (Fact.allHold_cons (fun hs => (known hs).2) Fact.allHold_nil)⟩
  · split at ends
    · rename_i absent made
      have made : id ∈ s.underway := by simpa using made
      exact announceReference_leads sound absent (fun hs => (sound hs).underway id made) ends
    · exact (declareReference_learns h id).runs l s type t sound
        (Fact.allHold_cons program Fact.allHold_nil) ends

end Codegen

end References

end ShaderGen
