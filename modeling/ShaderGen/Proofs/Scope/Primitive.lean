import ShaderGen.Proofs.Scope.Logic

/-!
# What the elementary steps of building keep

Remembering something, declaring something at module scope and appending an instruction to a block
are the steps that all others are made of. For each of them this file shows that a builder that
keeps to its ledger still does afterwards, and that it has grown.
-/

namespace ShaderGen

open List

variable {x : Ident} {i : Instruction} {k : Nat} {l l' : Ledger} {before : List Fact} {t : Ident}

/-! ## Functions that keep to a ledger -/

theorem Instruction.targets_subset_labelIds (i : Instruction) (h : t ∈ i.targets) :
    t ∈ i.labelIds := by
  unfold targets at h
  unfold labelIds
  split at h <;> simp_all

namespace Function

variable {shared shared' isLabel isLabel' : Ident → Prop} {avail avail' : Ident → Ident → Prop}
  {f : Function} {block : Block} {g : Function}

theorem labels_getElem (h : f.blocks[k]? = some block) : block.label ∈ f.labels :=
  mem_map_of_mem (mem_of_getElem? h)

theorem Reaches.mono {label : Ident} {before before' : List Instruction}
    (hs : ∀ x, shared x → shared' x) (hf : ∀ x ∈ f.fixedIds, x ∈ g.fixedIds)
    (ha : avail' label = avail label) (hb : ∀ x ∈ results before, x ∈ results before')
    (h : f.Reaches shared avail label before x) : g.Reaches shared' avail' label before' x := by
  rcases h with h | h | h | h
  · exact .inl (hs x h)
  · exact .inr (.inl (hf x h))
  · exact .inr (.inr (.inl (ha ▸ h)))
  · exact .inr (.inr (.inr (hb x h)))

theorem Checks.mono (h : f.Checks shared avail isLabel) (hs : ∀ x, shared x → shared' x)
    (hl : ∀ x, isLabel x → isLabel' x) (ha : ∀ t, isLabel t ∨ t ∈ f.labels → avail' t = avail t) :
    f.Checks shared' avail' isLabel' where
  start block hb x hx := by
    rw [head?_eq_getElem?] at hb
    rw [ha _ (.inr (labels_getElem hb))] at hx
    exact hs x (h.start block (by rwa [head?_eq_getElem?]) x hx)
  front block hb i hi x hx := hs x (h.front block hb i hi x hx)
  body k block hk before i after split := by
    have old := h.body k block hk before i after split
    have same : avail' block.label = avail block.label := ha _ (.inr (labels_getElem hk))
    refine ⟨fun x hx => ?_, fun x hx => hl x (old.labels x hx), fun t ht x hx => ?_⟩
    · exact (old.values x hx).mono hs (fun _ h => h) same fun _ h => h
    · rw [ha t (.inl (old.labels t (i.targets_subset_labelIds ht)))] at hx
      exact (old.targets t ht x hx).mono hs (fun _ h => h) same fun _ h => h
  joins k block hk i hi q hq := by
    obtain ⟨j, source, hj, label, reaches⟩ := h.joins k block hk i hi q hq
    exact ⟨j, source, hj, label, reaches.mono hs (fun _ h => h) (ha _ (.inr (labels_getElem hj)))
      fun _ h => h⟩

theorem Asks.mono (h : f.Asks shared avail) (hs : ∀ x, shared x → shared' x)
    (hf : ∀ x ∈ f.ids, x ∈ g.ids) : g.Asks shared' avail :=
  fun t x hx => (h t x hx).imp (hs x) (hf x)

theorem getElem?_blocks_pushTo {j : Nat} : (f.pushTo k i).blocks[j]? = some block ↔
      ∃ old, f.blocks[j]? = some old ∧ block = if k = j then old.push i else old := by
  simp only [pushTo, getElem?_modify]
  cases f.blocks[j]? with
  | none => simp
  | some old => by_cases h : k = j <;> simp [h, eq_comm]

@[simp] theorem label_push (block : Block) (i : Instruction) : (block.push i).label = block.label :=
  rfl

@[simp] theorem body_push (block : Block) (i : Instruction) :
    (block.push i).body = block.body ++ [i] :=
  rfl

theorem fixedIds_pushTo (k : Nat) (i : Instruction) (h : x ∈ f.fixedIds) :
    x ∈ (f.pushTo k i).fixedIds := by
  unfold fixedIds pushTo at *
  cases hb : f.blocks with
  | nil => simpa [hb] using h
  | cons block rest =>
    cases k with
    | zero =>
      simp only [hb, modify_zero_cons, head?_cons, Option.map_some, Option.getD_some,
        body_push, results_append] at h ⊢
      simp only [mem_append] at h ⊢
      exact h.imp_right .inl
    | succ k => simpa [hb] using h

/-- A block gets one more instruction, which keeps to what can be used at its end. -/
theorem Checks.push (h : f.Checks shared avail isLabel) (hk : f.blocks[k]? = some block)
    (hi : i.Checks (f.Reaches shared avail block.label block.body) avail isLabel)
    (front : k = 0 → ∀ x ∈ i.valueIds, shared x)
    (joins : ∀ q ∈ i.incoming, ∃ (j : Nat) (source : Block), f.blocks[j]? = some source ∧
      source.label = q.2 ∧ f.Reaches shared avail source.label source.body q.1) :
    (f.pushTo k i).Checks shared avail isLabel := by
  have fixed : ∀ x ∈ f.fixedIds, x ∈ (f.pushTo k i).fixedIds := fun _ => fixedIds_pushTo k i
  -- what is known at the end of a block is known at the end of what it has become
  have grown : ∀ (j : Nat) (source : Block), f.blocks[j]? = some source → ∀ x,
      f.Reaches shared avail source.label source.body x →
      ∃ (j' : Nat) (source' : Block), (f.pushTo k i).blocks[j']? = some source' ∧
        source'.label = source.label ∧
        (f.pushTo k i).Reaches shared avail source'.label source'.body x := by
    intro j source hj x hx
    refine ⟨j, if k = j then source.push i else source,
      getElem?_blocks_pushTo.2 ⟨source, hj, rfl⟩, ?_, ?_⟩
    · split <;> rfl
    · split
      · exact hx.mono (fun _ h => h) fixed rfl (by simp +contextual)
      · exact hx.mono (fun _ h => h) fixed rfl fun _ h => h
  refine ⟨?_, ?_, ?_, ?_⟩
  · intro new hnew x hx
    rw [head?_eq_getElem?, getElem?_blocks_pushTo] at hnew
    obtain ⟨old, hold, rfl⟩ := hnew
    refine h.start old (by rw [head?_eq_getElem?, hold]) x ?_
    split at hx <;> exact hx
  · intro new hnew j hj x hx
    rw [head?_eq_getElem?, getElem?_blocks_pushTo] at hnew
    obtain ⟨old, hold, rfl⟩ := hnew
    have hold' : f.blocks.head? = some old := by rw [head?_eq_getElem?, hold]
    split at hj
    · rcases mem_append.1 hj with hj | hj
      · exact h.front old hold' j hj x hx
      · exact front ‹_› x (mem_singleton.1 hj ▸ hx)
    · exact h.front old hold' j hj x hx
  · intro j new hnew before c after split
    obtain ⟨old, hold, rfl⟩ := getElem?_blocks_pushTo.1 hnew
    have earlier : ∀ rest, old.body = before ++ c :: rest →
        c.Checks ((f.pushTo k i).Reaches shared avail old.label before) avail isLabel := by
      intro rest hrest
      have checks := h.body j old hold before c rest hrest
      exact ⟨fun x hx => (checks.values x hx).mono (fun _ h => h) fixed rfl fun _ h => h,
        checks.labels, fun t ht x hx =>
          (checks.targets t ht x hx).mono (fun _ h => h) fixed rfl fun _ h => h⟩
    by_cases hkj : k = j
    · subst hkj
      cases hold.symm.trans hk
      simp only [if_true, label_push, body_push] at split ⊢
      rcases append_singleton_eq_append_cons split with ⟨rfl, rfl, -⟩ | ⟨rest, -, hrest⟩
      · exact ⟨fun x hx => (hi.values x hx).mono (fun _ h => h) fixed rfl fun _ h => h, hi.labels,
          fun t ht x hx => (hi.targets t ht x hx).mono (fun _ h => h) fixed rfl fun _ h => h⟩
      · exact earlier rest hrest
    · simp only [if_neg hkj] at split ⊢
      exact earlier after split
  · intro j new hnew c hc q hq
    obtain ⟨old, hold, rfl⟩ := getElem?_blocks_pushTo.1 hnew
    have older : c ∈ old.body ∨ c = i := by
      split at hc
      · simpa using hc
      · exact .inl hc
    obtain ⟨j', source, hj', label, reaches⟩ : ∃ (j : Nat) (source : Block),
        f.blocks[j]? = some source ∧ source.label = q.2 ∧
          f.Reaches shared avail source.label source.body q.1 := by
      rcases older with hc | rfl
      · exact h.joins j old hold c hc q hq
      · exact joins q hq
    obtain ⟨j'', source', hj'', label', reaches'⟩ := grown j' source hj' q.1 reaches
    exact ⟨j'', source', hj'', label'.trans label, reaches'⟩

end Function

/-! ## Steps that leave the code alone -/

namespace Builder

variable {l : Ledger} {b b' : Builder}

theorem Leaves.mono (h : b.Leaves l t x)
    (current : b'.current? = b.current?) (bound : b.output.bound ≤ b'.output.bound)
    (shared : ∀ x, b.Shared l x → b'.Shared l' x) (avail : l'.avail t = l.avail t) :
    b'.Leaves l' t x := by
  obtain ⟨below, f, block, hf, hblock, label, reaches⟩ := h
  exact ⟨Nat.lt_of_lt_of_le below bound, f, block, current.trans hf, hblock, label,
    reaches.mono shared (fun _ h => h) avail fun _ h => h⟩

/-- What is said about ids, and remembered of them, is the same. -/
structure SameTables (b b' : Builder) : Prop where
  roots : b'.output.rootIds = b.output.rootIds
  names : b'.output.names = b.output.names
  annotations : b'.output.annotations = b.output.annotations
  remembered : b'.remembered = b.remembered
  interface : b'.interface = b.interface
  form? : b'.form? = b.form?

/-- The tables stay sound where ids stay what they are, whatever is new in the memories. -/
theorem Tables.carry (tables : b.Tables l) (shared : ∀ x, b.Shared l x → b'.Shared l' x)
    (placed : ∀ x, b.Placed l x → b'.Placed l' x)
    (same : b'.output.rootIds = b.output.rootIds ∧ b'.output.names = b.output.names ∧
      b'.output.annotations = b.output.annotations ∧ b'.interface = b.interface)
    (remembered : ∀ x ∈ b'.remembered, b'.Global l' x)
    (announced : ∀ x storage, b'.form? x = some (.pointer storage none) → (x, .pointer) ∈ l'.owed) :
    b'.Tables l' where
  roots x hx := shared x (tables.roots x (same.1 ▸ hx))
  named n hn := placed _ (tables.named n (same.2.1 ▸ hn))
  annotated a ha := (tables.annotated a (same.2.2.1 ▸ ha)).imp_left (placed _)
  remembered
  interface x hx := (tables.interface x (same.2.2.2 ▸ hx)).imp (shared x) (placed x)
  announced

theorem Tables.mono (h : b.SameTables b') (follows : b.Follows l l' b')
    (pointers : ∀ x, (x, Role.pointer) ∈ l.owed → (x, .pointer) ∈ l'.owed) (hs : l.strict)
    (tables : b.Tables l) : b'.Tables l' :=
  tables.carry (follows.shared hs) (follows.placed hs)
  ⟨h.roots, h.names, h.annotations, h.interface⟩
    (fun x hx => follows.global hs x (tables.remembered x (h.remembered ▸ hx)))
    fun x storage hx => pointers x (tables.announced x storage (h.form? ▸ hx))

/-- The functions, and the place where code goes, are the same. -/
structure SameCode (b b' : Builder) : Prop where
  functions : b'.output.functions = b.output.functions
  place : b'.place = b.place
  version : b'.output.version = b.output.version

namespace SameCode

variable (h : b.SameCode b')

include h

theorem inFunction : b'.inFunction = b.inFunction :=
  congrArg Place.inFunction h.place

theorem block : b'.block = b.block :=
  congrArg Place.block h.place

theorem current? : b'.current? = b.current? := by
  simp [Builder.current?, h.inFunction, h.functions]

theorem finished : b'.finished = b.finished := by
  simp [Builder.finished, h.inFunction, h.functions]

theorem here? : b'.here? = b.here? := by
  simp [Builder.here?, h.current?, h.block]

theorem isLabel : b'.IsLabel l x ↔ b.IsLabel l x := by
  simp [IsLabel, h.current?]

theorem parameterIds : b'.output.parameterIds = b.output.parameterIds := by
  simp [Module.parameterIds, h.functions]

theorem grows (bound : b.output.bound ≤ b'.output.bound)
    (imports : ∀ x ∈ b.output.imports.map Prod.fst, x ∈ b'.output.imports.map Prod.fst)
    (declared : ∀ i ∈ b.output.globals, i ∈ b'.output.globals) : b.Grows l l b' := by
  have globals : ∀ x ∈ results b.output.globals, x ∈ results b'.output.globals := by
    intro x hx
    obtain ⟨i, hi, result⟩ := mem_filterMap.1 hx
    exact mem_filterMap.2 ⟨i, declared i hi, result⟩
  have shared : ∀ x, b.Shared l x → b'.Shared l x := by
    intro x hx
    rcases hx with hx | hx | hx | hx | hx | hx
    · exact .inl (imports x hx)
    · exact .inr (.inl (globals x hx))
    · exact .inr (.inr (.inl hx))
    · exact .inr (.inr (.inr (.inl hx)))
    · exact .inr (.inr (.inr (.inr (.inl (h.functions ▸ hx)))))
    · exact .inr (.inr (.inr (.inr (.inr hx))))
  have fixed : ∀ x, b.Fixed l x → b'.Fixed l x := by
    intro x hx
    rw [Fixed, h.current?]
    exact hx.imp_left (shared x)
  have placed : ∀ x, b.Placed l x → b'.Placed l x := by
    intro x hx
    refine hx.imp_right fun hx => ?_
    simp only [Module.ids, mem_append, h.functions] at hx ⊢
    exact hx.imp_left fun hx => hx.imp (imports x) (globals x)
  exact { Grows.refl l b with
    declared := declared
    global := fun _ x hx => hx.imp_left (globals x)
    version := h.version
    inFunction := h.inFunction
    codeBlock := congrArg Place.codeBlock h.place
    length := congrArg length h.functions
    bound := bound
    blocks := by simp [blockCount, h.functions]
    quiet := fun _ _ => by simp [blockCount, h.functions]
    shared := fun _ => shared
    fixed := fun _ => fixed
    placed := fun _ => placed
    parameters := fun _ x hx => h.parameterIds ▸ hx
    label := fun _ x hx => h.isLabel.2 hx
    leaves := fun _ _ _ ht => ht.mono h.current? bound shared rfl
    known := fun _ x hx => by
      rw [Known, h.here?]
      exact hx.imp_left (fixed x)
    opened := by rw [h.block] }

theorem same (bound : b.output.bound ≤ b'.output.bound) : Builder.Same l b l b' :=
  ⟨.refl l, .same h.functions h.place bound⟩

/-- The functions still keep to the ledger, so only what is outside of them has to be looked at. -/
theorem keepsScoped (sound : b.Scoped l)
    (shared : ∀ x, b.Shared l x → b'.Shared l' x) (label : ∀ x, b.IsLabel l x → b'.IsLabel l' x)
    (avail : ∀ t, b.IsLabel l t → l'.avail t = l.avail t)
    (asks : ∀ f, b.current? = some f → f.Asks (b'.Shared l') l'.avail) (tables : b'.Tables l')
    (distinct : (l'.owed.map Prod.fst ++ b'.output.ids).Nodup)
    (below : ∀ x, b'.Placed l' x → x < b'.output.bound) : b'.Scoped l' where
  toTables := tables
  distinct := distinct
  below := below
  heads f hf x hx := shared x (sound.heads f (h.functions ▸ hf) x hx)
  finished f hf := by
    obtain ⟨avail, checks, asks⟩ := sound.finished f (h.finished ▸ hf)
    exact ⟨avail, checks.mono shared (fun _ => id) fun _ _ => rfl, asks.mono shared fun _ => id⟩
  current f hf := by
    rw [h.current?] at hf
    exact (sound.current f hf).mono shared label fun t ht =>
      avail t (ht.elim id fun ht => .inr ⟨f, hf, ht⟩)
  asks f hf := asks f (h.current? ▸ hf)
  here k hk := by
    obtain ⟨positive, block, here, label⟩ := sound.here k (h.block ▸ hk)
    have current : b'.currentBlock = b.currentBlock := congrArg Place.currentBlock h.place
    exact ⟨positive, block, h.here? ▸ here, current ▸ label⟩
  front f block hf hblock := by
    have front : b'.variablesBlock = b.variablesBlock := congrArg Place.variablesBlock h.place
    exact front ▸ sound.front f block (h.current? ▸ hf) hblock

theorem staysScoped (grows : b.Grows l l b') (hs : l.strict) (sound : b.Scoped l)
    (tables : b'.Tables l) (distinct : (l.owed.map Prod.fst ++ b'.output.ids).Nodup)
    (below : ∀ x, b'.Placed l x → x < b'.output.bound) : b'.Scoped l :=
  h.keepsScoped sound (grows.shared hs) (grows.label hs) (fun _ _ => rfl)
    (fun f hf => (sound.asks f hf).mono (grows.shared hs) fun _ => id) tables distinct below

theorem sound (grows : b.Grows l l b') (hs : l.strict) (sound : b.Sound l)
    (tables : b'.Tables l) (distinct : (l.owed.map Prod.fst ++ b'.output.ids).Nodup)
    (below : ∀ x, b'.Placed l x → x < b'.output.bound) (order : b'.Orderly l) : b'.Sound l :=
  ⟨h.staysScoped grows hs sound.toScoped tables distinct below, order⟩

end SameCode

end Builder

/-! ## Steps that add to what is remembered -/

/-- All that changes is what the module says about itself and its ids, and what is remembered. -/
structure Builder.Notes (b b' : Builder) : Prop where
  code : b.SameCode b'
  bound : b'.output.bound = b.output.bound
  imports : b'.output.imports = b.output.imports
  globals : b'.output.globals = b.output.globals
  forms : ∀ x storage, b'.form? x = some (.pointer storage none) →
    b.form? x = some (.pointer storage none)

theorem Builder.Notes.grows {b b' : Builder} (h : b.Notes b') : b.Grows l l b' :=
  h.code.grows (Nat.le_of_eq h.bound.symm) (fun _ hx => h.imports ▸ hx) fun _ hx => h.globals ▸ hx

theorem Builder.Notes.ids {b b' : Builder} (h : b.Notes b') : b'.output.ids = b.output.ids := by
  simp [Module.ids, h.imports, h.globals, h.code.functions]

theorem Runs.notes {f : Builder → Builder} (h : ∀ b : Builder, b.Notes (f b))
    (tables : ∀ l b, l.strict → b.Sound l → Fact.AllHold l b before → (f b).Tables l) :
    Runs before (modify f : Emit PUnit) fun _ => [] := by
  intro l b u b' sound hold ends
  obtain rfl := congrArg Prod.snd ends
  refine ⟨l, fun hs => ?_, (h b).grows,
    (h b).code.same (Nat.le_of_eq (h b).bound.symm), fun _ hφ => by cases hφ⟩
  refine (h b).code.sound (h b).grows hs (sound hs) (tables l b hs (sound hs) hold)
    ((h b).ids ▸ (sound hs).distinct) (fun x hx => ?_) ?_
  · rw [(h b).bound]
    exact (sound hs).below x (by rwa [Builder.Placed, (h b).ids] at hx)
  · exact (sound hs).order.mono (h b).globals (fun _ hx => (h b).code.parameterIds ▸ hx)
      (fun _ => Iff.rfl) (h b).forms

/-- Of what is remembered, only `new` is new. Nothing more is said about ids. -/
structure Builder.Quiet (b b' : Builder) (new : List Ident) : Prop extends b.Notes b' where
  names : b'.output.names = b.output.names
  annotations : b'.output.annotations = b.output.annotations
  roots : b'.output.rootIds = b.output.rootIds
  interface : b'.interface = b.interface
  remembered : ∀ x ∈ b'.remembered, x ∈ b.remembered ∨ x ∈ new

theorem Builder.Quiet.refl (b : Builder) (new : List Ident) : b.Quiet b new :=
  ⟨⟨⟨rfl, rfl, rfl⟩, rfl, rfl, rfl, fun _ _ => id⟩, rfl, rfl, rfl, rfl, fun _ => .inl⟩

theorem Runs.quiet {f : Builder → Builder} (new : List Ident)
    (h : ∀ b : Builder, b.Quiet (f b) new) :
    Runs (new.map .shared) (modify f : Emit PUnit) fun _ => [] := by
  refine .notes (fun b => (h b).toNotes) fun l b hs sound hold => ?_
  have grows := (h b).grows (l := l)
  refine sound.carry (grows.shared hs) (grows.placed hs)
    ⟨(h b).roots, (h b).names, (h b).annotations, (h b).interface⟩
    (fun x hx => grows.global hs x ?_)
    fun x storage hx => sound.announced x storage ((h b).forms x storage hx)
  exact ((h b).remembered x hx).elim (sound.remembered x) fun hx => hold (.shared x)
    (mem_map_of_mem hx) hs

namespace Builder

/-! ## Declarations at module scope -/

variable {b : Builder}

theorem Scoped.not_placed_bound (sound : b.Scoped l) : ¬ b.Placed l b.output.bound :=
  fun h => Nat.lt_irrefl _ (sound.below _ h)

variable {ids : List Ident}

theorem Sound.distinct_cons (sound : b.Sound l)
    (h : ids.Perm (b.output.bound :: b.output.ids)) : (l.owed.map Prod.fst ++ ids).Nodup := by
  have moved : (l.owed.map Prod.fst ++ ids).Perm
      (b.output.bound :: (l.owed.map Prod.fst ++ b.output.ids)) :=
    ((perm_append_left_iff _).2 h).trans perm_middle
  refine moved.nodup_iff.2 (nodup_cons.2 ⟨fun hx => ?_, sound.distinct⟩)
  exact sound.not_placed_bound (mem_append.1 hx)

theorem Sound.below_cons (sound : b.Sound l)
    (h : ids.Perm (b.output.bound :: b.output.ids)) (hx : x ∈ l.owed.map Prod.fst ∨ x ∈ ids) :
    x < b.output.bound + 1 := by
  rcases hx with hx | hx
  · exact Nat.lt_succ_of_lt (sound.below x (.inl hx))
  · rcases mem_cons.1 (h.mem_iff.1 hx) with rfl | hx
    · exact Nat.lt_succ_self _
    · exact Nat.lt_succ_of_lt (sound.below x (.inr hx))

theorem gives_offered (hx : x ∈ b.offered)
    [g : Gives before (.tables b)] : Gives before (.shared x) :=
  ⟨fun l c hold hs => (g.holds l c hold hs).1 x hx⟩

theorem gives_lent (hx : x ∈ b.lent) [g : Gives before (.tables b)] : Gives before (.anywhere x) :=
  ⟨fun l c hold hs => (g.holds l c hold hs).2 x hx⟩

/-- A new id is defined at module scope. -/
structure Declares (b b' : Builder) : Prop where
  code : b.SameCode b'
  tables : b.SameTables b'
  bound : b'.output.bound = b.output.bound + 1
  imports : ∀ x ∈ b.output.imports.map Prod.fst, x ∈ b'.output.imports.map Prod.fst
  declared : ∀ i ∈ b.output.globals, i ∈ b'.output.globals
  ids : b'.output.ids.Perm (b.output.bound :: b.output.ids)

theorem Declares.grows {b' : Builder} (h : b.Declares b') : b.Grows l l b' :=
  h.code.grows (h.bound ▸ Nat.le_succ _) h.imports h.declared

theorem Declares.same {b' : Builder} (h : b.Declares b') : Builder.Same l b l b' :=
  h.code.same (h.bound ▸ Nat.le_succ _)

theorem Declares.sound {b' : Builder} (h : b.Declares b') (hs : l.strict)
    (old : b.Sound l) (order : b'.Orderly l) : b'.Sound l :=
  h.code.sound h.grows hs old (old.toTables.mono h.tables h.grows.toFollows (fun _ => id) hs)
    (old.distinct_cons h.ids) (fun _ hx => h.bound ▸ old.below_cons h.ids hx) order

/-- A builder with one more instruction at module scope, and one more id. -/
def globalPushed (b : Builder) (i : Instruction) : Builder :=
  { b with
    output.bound := b.output.bound + 1
    output.globals := b.output.globals ++ [i] }

theorem declares_global (b : Builder) (h : i.result = some b.output.bound) :
    b.Declares (b.globalPushed i) := by
  refine ⟨⟨rfl, rfl, rfl⟩, ⟨rfl, rfl, rfl, rfl, rfl, rfl⟩, rfl, fun _ => id, ?_, ?_⟩
  · simp +contextual [globalPushed]
  · have middle : (b.output.imports.map Prod.fst ++ results b.output.globals
        ++ b.output.bound :: b.output.functions.flatMap Function.ids).Perm
        (b.output.bound :: b.output.ids) := perm_middle
    simpa [Module.ids, globalPushed, h] using middle

theorem Sound.globalPushed (sound : b.Sound l) (hs : l.strict)
    (h : i.result = some b.output.bound) (plain : i.op ≠ .typeForwardPointer)
    (refs : ∀ x ∈ i.refs, b.Global l x ∨ (i.IsLength x ∧ x ∈ b.output.parameterIds)) :
    (b.globalPushed i).Sound l := by
  refine (declares_global b h).sound hs sound (sound.order.push rfl rfl rfl plain refs ?_)
  intro type id typed result
  cases h.symm.trans result
  have used : type ∈ i.refs := by simp [Instruction.refs, typed]
  rcases refs type used with known | ⟨-, parameter⟩
  · exact sound.below type known.placed
  · exact sound.below type (placed_of_parameter parameter)

theorem global_globalPushed (h : i.result = some b.output.bound) :
    (b.globalPushed i).Global l b.output.bound :=
  .inl (by simp [globalPushed, h])

end Builder

end ShaderGen
