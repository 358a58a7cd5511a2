import ShaderGen.Proofs.Scope.Owed

/-!
# Beginning and ending blocks

A block is begun with a label that is owed, and ends with an instruction that enters only blocks
that ask for nothing but what is known at that place. Neither step keeps what is known where it is
made; what can be used all over the function stays.
-/

namespace ShaderGen

open List
open Steps (Ends ends_bind ends_then)

namespace Builder

variable {l : Ledger} {b : Builder} {b' : Builder} {x : Ident} {i : Instruction} {k : Nat}
  {u : Unit} {f : Function} {label : Ident} {bound : Ident}

/-! ## Control instructions -/

/-- An instruction that is no variable goes to the selected block. It enters only blocks that ask
for what is known, and joins only values that leave the blocks it takes them from. -/
theorem Sound.pushed_control (sound : b.Sound l) (hs : l.strict)
    (hk : b.block = some k) (result : i.result = none ∧ bound = b.output.bound ∨
      i.result = some b.output.bound ∧ bound = b.output.bound + 1)
    (values : ∀ x ∈ i.valueIds, b.Known l x) (labels : ∀ t ∈ i.labelIds, b.IsLabel l t)
    (targets : ∀ t ∈ i.targets, ∀ x, l.avail t x → b.Known l x)
    (joins : ∀ q ∈ i.incoming, b.Leaves l q.2 q.1) : (b.pushed k i bound).Sound l := by
  obtain ⟨positive, f, block, current, hblock, -, -⟩ := sound.selected hk
  refine sound.pushed hs current hblock result ⟨?_, labels, ?_⟩ ?_ ?_
  · exact fun x hx => (values x hx).reaches current hk hblock
  · exact fun t ht x hx => (targets t ht x hx).reaches current hk hblock
  · exact fun zero => absurd zero (Nat.ne_of_gt positive)
  · intro q hq
    obtain ⟨-, g, source, hg, hsource, label, reaches⟩ := joins q hq
    cases hg.symm.trans current
    obtain ⟨j, hj⟩ := mem_iff_getElem?.1 hsource
    exact ⟨j, source, hj, label, label ▸ reaches⟩

theorem known_pushed_of_known (h : b.Known l x) : (b.pushed k i bound).Known l x := by
  rcases h with h | ⟨here, hhere, hx⟩
  · exact .inl (fixed_pushed h)
  · refine .inr ⟨_, here?_pushed hhere, ?_⟩
    split
    · exact hx.imp_right fun hx => by simp [hx]
    · exact hx

/-! ## Ending a block -/

/-- A builder in which no block takes instructions. -/
def halted (b : Builder) (cursor : Cursor) : Builder :=
  { b with toCursor := cursor, block := none }

theorem Sound.halted (sound : b.Sound l) (cursor : Cursor) : (b.halted cursor).Sound l :=
  { sound with
    order := sound.order.mono rfl (fun _ => id) (fun _ => Iff.rfl) fun _ _ => id
    here := fun k hk => by cases hk }

theorem follows_halted (cursor : Cursor) : b.Follows l l (b.halted cursor) :=
  { Follows.refl l b with }

theorem ends_endBlock (h : Ends (endBlock i) b u b') :
    ∃ k, b.block = some k ∧ b' = (b.pushed k i b.output.bound).halted b.toCursor := by
  replace h := ends_get h
  obtain ⟨-, h⟩ := ends_ensure h
  obtain ⟨_, b2, ⟨k, -, hk, rfl⟩, h⟩ := ends_then ends_append h
  cases h
  exact ⟨k, hk, rfl⟩

theorem ends_endWith {op : Opcode} {operands : List Operand}
    (h : Ends (endWith op operands) b u b') :
    ∃ k, b.block = some k ∧ b' = (b.pushed k { op, operands } b.output.bound).halted
      b.toCursor.leave := by
  obtain ⟨_, b1, ⟨k, -, hk, rfl⟩, h⟩ := ends_then ends_append h
  obtain ⟨_, b2, hselect, h⟩ := ends_bind h
  cases hselect
  cases h
  exact ⟨k, hk, rfl⟩

end Builder

/-! ## Beginning a block -/

/-- A function with one more block. -/
def Function.withBlock (f : Function) (label : Ident) : Function :=
  { f with blocks := f.blocks ++ [{ label }] }

namespace Function

variable {f : Function} {label : Ident} {k : Nat}

@[simp] theorem labels_withBlock : (f.withBlock label).labels = f.labels ++ [label] := by
  simp [labels, withBlock]

@[simp] theorem fixedIds_withBlock : (f.withBlock label).fixedIds = f.fixedIds := by
  unfold fixedIds withBlock
  cases f.blocks <;> simp

theorem ids_withBlock : (f.withBlock label).ids.Perm (label :: f.ids) := by
  have last : (f.withBlock label).ids = f.ids ++ [label] := by
    simp [ids, withBlock, Block.ids]
  exact last ▸ perm_append_singleton label f.ids

theorem getElem?_blocks_withBlock {block : Block}
    (h : (f.withBlock label).blocks[k]? = some block) :
    f.blocks[k]? = some block ∨ block = { label } := by
  rw [withBlock, getElem?_append] at h
  split at h
  · exact .inl h
  · exact .inr (mem_singleton.1 (mem_of_getElem? h))

theorem Checks.withBlock {shared isLabel : Ident → Prop} {avail : Ident → Ident → Prop}
    (h : f.Checks shared avail isLabel) (start : f.blocks = [] → ∀ x, avail label x → shared x) :
    (f.withBlock label).Checks shared avail isLabel := by
  have reaches : ∀ {t before x}, f.Reaches shared avail t before x →
      (f.withBlock label).Reaches shared avail t before x :=
    fun hx => hx.mono (fun _ h => h) (fun _ h => by rwa [fixedIds_withBlock]) rfl fun _ h => h
  refine ⟨fun block hb x hx => ?_, fun block hb i hi x hx => ?_,
    fun k block hk before i after split => ?_, fun k block hk i hi q hq => ?_⟩
  · cases hblocks : f.blocks with
    | nil =>
      obtain rfl : block = { label } := by simpa [Function.withBlock, hblocks, eq_comm] using hb
      exact start hblocks x hx
    | cons first rest =>
      obtain rfl : first = block := by simpa [Function.withBlock, hblocks] using hb
      exact h.start first (by simp [hblocks]) x hx
  · rw [head?_eq_getElem?] at hb
    rcases getElem?_blocks_withBlock hb with hb | rfl
    · exact h.front block (head?_eq_getElem? ▸ hb) i hi x hx
    · cases hi
  · rcases getElem?_blocks_withBlock hk with hk | rfl
    · have old := h.body k block hk before i after split
      exact ⟨fun x hx => reaches (old.values x hx), old.labels,
        fun t ht x hx => reaches (old.targets t ht x hx)⟩
    · simp at split
  · rcases getElem?_blocks_withBlock hk with hk | rfl
    · obtain ⟨j, source, hj, hlabel, hx⟩ := h.joins k block hk i hi q hq
      refine ⟨j, source, ?_, hlabel, reaches hx⟩
      rw [Function.withBlock, getElem?_append_left (List.getElem?_eq_some_iff.1 hj).1]
      exact hj
    · cases hi

end Function

namespace Builder

variable {l : Ledger} {b : Builder} {block : Option Nat}

/-- A builder whose last function has one more block. -/
def opened (b : Builder) (label : Ident) (block : Option Nat) (cursor : Cursor) : Builder :=
  { b with
    toCursor := cursor
    output.functions := modifyLast (·.withBlock label) b.output.functions
    block }

section Opened

variable {label : Ident} {block : Option Nat} {cursor : Cursor}

theorem current?_opened (h : b.current? = some f) :
    (b.opened label block cursor).current? = some (f.withBlock label) := by
  obtain ⟨inside, fs, hfs⟩ := exists_functions h
  simp [current?, opened, inside, hfs]

theorem blockCount_le_opened : b.blockCount ≤ (b.opened label block cursor).blockCount := by
  unfold blockCount opened
  cases h : b.output.functions.getLast? <;> simp [h, Function.withBlock]

theorem blockCount_opened (h : b.current? = some f) :
    (b.opened label block cursor).blockCount = b.blockCount + 1 := by
  obtain ⟨-, fs, hfs⟩ := exists_functions h
  simp [blockCount, opened, hfs, Function.withBlock]

theorem ids_opened (h : b.current? = some f) :
    (b.opened label block cursor).output.ids.Perm (label :: b.output.ids) := by
  obtain ⟨-, fs, hfs⟩ := exists_functions h
  have functions : (b.opened label block cursor).output.functions =
      fs ++ [f.withBlock label] := by simp [opened, hfs]
  have ids : (fs.flatMap Function.ids ++ (f.withBlock label).ids).Perm
      (label :: (fs.flatMap Function.ids ++ f.ids)) :=
    ((perm_append_left_iff _).2 Function.ids_withBlock).trans perm_middle
  have all : (b.opened label block cursor).output.ids =
      b.output.imports.map Prod.fst ++ results b.output.globals
        ++ (fs.flatMap Function.ids ++ (f.withBlock label).ids) := by
    rw [Module.ids, functions]
    simp [opened]
  have old : b.output.ids = b.output.imports.map Prod.fst ++ results b.output.globals
      ++ (fs.flatMap Function.ids ++ f.ids) := by
    simp [Module.ids, hfs]
  rw [all, old]
  exact ((perm_append_left_iff _).2 ids).trans perm_middle

theorem map_opened {α : Type} (g : Function → α) (h : ∀ f : Function, g (f.withBlock label) = g f) :
    (b.opened label block cursor).output.functions.map g =
      b.output.functions.map g := by
  unfold opened
  rcases b.output.functions.eq_nil_or_concat' with hfs | ⟨fs, f, hfs⟩
  · simp [hfs, modifyLast]
  · simp [hfs, h]

theorem shared_opened : (b.opened label block cursor).Shared (l.settle label .label) x ↔
      b.Shared l x := by
  have ids : (b.opened label block cursor).output.functions.map Function.id =
      b.output.functions.map Function.id := map_opened _ fun _ => rfl
  have pointer : (x, Role.pointer) ∈ (l.settle label .label).owed ↔ (x, .pointer) ∈ l.owed :=
    Ledger.mem_settle_of_ne (by simp)
  have function : (x, Role.function) ∈ (l.settle label .label).owed ↔ (x, .function) ∈ l.owed :=
    Ledger.mem_settle_of_ne (by simp)
  simp only [Shared, ids, pointer, function]
  rfl

theorem parameterIds_opened :
    (b.opened label block cursor).output.parameterIds = b.output.parameterIds := by
  simp only [Module.parameterIds, flatMap_def]
  rw [map_opened _ fun _ => rfl]

theorem fixed_opened (h : b.Fixed l x) :
    (b.opened label block cursor).Fixed (l.settle label .label) x := by
  rcases h with h | ⟨g, hg, hx⟩
  · exact .inl (shared_opened.2 h)
  · exact .inr ⟨_, current?_opened hg, by rwa [Function.fixedIds_withBlock]⟩

variable (owed : (label, Role.label) ∈ l.owed)

include owed in
theorem Sound.isLabel_opened (sound : b.Sound l) (hf : b.current? = some f)
    {t : Ident} (h : b.IsLabel l t) :
    (b.opened label block cursor).IsLabel (l.settle label .label) t := by
  by_cases same : t = label
  · exact .inr ⟨_, current?_opened hf, by simp [same]⟩
  · rcases h with h | ⟨g, hg, ht⟩
    · exact .inl ((sound.mem_settle owed).2 ⟨h, same⟩)
    · cases hg.symm.trans hf
      exact .inr ⟨_, current?_opened hf, by simp [ht]⟩

end Opened

theorem follows_opened {cursor : Cursor}
    (hf : b.current? = some f) (awake : l.straight → l.strict) (sound : l.strict → b.Sound l)
    (owed : l.strict → (label, Role.label) ∈ l.owed) :
    b.Follows l (l.settle label .label) (b.opened label block cursor) :=
  { Follows.refl l b with
    global := fun _ _ h => h.imp_right (Ledger.mem_settle_of_ne (by simp)).2
    length := length_modifyLast _ _
    blocks := blockCount_le_opened
    quiet := fun straight lax => absurd (awake straight) lax
    shared := fun _ _ => shared_opened.2
    fixed := fun _ _ => fixed_opened
    placed := fun hs _ hx => mem_append.1
      ((perm_settle_append (owed hs) (ids_opened hf)).mem_iff.2 (mem_append.2 hx))
    parameters := fun _ _ hx => by rwa [parameterIds_opened]
    label := fun hs _ => (sound hs).isLabel_opened (owed hs) hf
    leaves := fun _ t x ht => by
      obtain ⟨below, g, source, hg, hsource, hlabel, reaches⟩ := ht
      refine ⟨below, _, source, current?_opened hg, mem_append_left _ hsource, hlabel, ?_⟩
      exact reaches.mono (fun _ => shared_opened.2)
        (fun _ h => by rwa [Function.fixedIds_withBlock]) rfl fun _ h => h
    functions := fun _ _ => Ledger.mem_settle_of_ne (by simp) }

theorem Sound.opened (sound : b.Sound l) (hs : l.strict)
    {cursor : Cursor} (hf : b.current? = some f) (owed : (label, Role.label) ∈ l.owed)
    (place : ∀ k, block = some k → k = b.blockCount ∧ 0 < k ∧ cursor.currentBlock = some label)
    (front : f.blocks = [] → b.variablesBlock = some label ∧ ∀ x, l.avail label x → b.Shared l x) :
    (b.opened label block cursor).Sound (l.settle label .label) := by
  have follows : b.Follows l (l.settle label .label) (b.opened label block cursor) :=
    follows_opened hf (fun _ => hs) (fun _ => sound) fun _ => owed
  have ids : ((l.settle label .label).owed.map Prod.fst
      ++ (b.opened label block cursor).output.ids).Perm
        (l.owed.map Prod.fst ++ b.output.ids) := perm_settle_append owed (ids_opened hf)
  have tables : b.SameTables (b.opened label block cursor) := ⟨rfl, rfl, rfl, rfl, rfl, rfl⟩
  refine sound.replaced hf (current?_opened hf) (dropLast_modifyLast _ _) (follows.shared hs)
    (sound.toTables.mono tables follows (fun _ => (Ledger.mem_settle_of_ne (by simp)).2) hs)
    (sound.order.mono rfl (fun _ hx => by rwa [parameterIds_opened])
      (fun _ => Ledger.mem_settle_of_ne (by simp)) fun _ _ => id)
    (ids.nodup_iff.2 sound.distinct)
    (fun x hx => sound.below x (mem_append.1 (ids.mem_iff.1 (mem_append.2 hx)))) (fun _ => .inl)
    ?_ ?_ (fun k hk => ?_) fun head hhead => ?_
  · exact ((sound.current f hf).withBlock fun h => (front h).2).mono (follows.shared hs)
      (follows.label hs) fun _ _ => rfl
  · refine (sound.asks f hf).mono (follows.shared hs) fun x hx => ?_
    exact Function.ids_withBlock.mem_iff.2 (mem_cons_of_mem _ hx)
  · obtain ⟨rfl, positive, same⟩ := place k hk
    obtain ⟨-, fs, hfs⟩ := exists_functions hf
    refine ⟨positive, { label }, ?_, same⟩
    have count : b.blockCount = f.blocks.length := by simp [blockCount, hfs]
    have selected : (b.opened label block cursor).block = some b.blockCount := hk
    simp [here?, current?_opened hf, selected, count, Function.withBlock]
  · cases hblocks : f.blocks with
    | nil =>
      obtain rfl : head = { label } := by simpa [Function.withBlock, hblocks, eq_comm] using hhead
      exact (front hblocks).1
    | cons first rest =>
      obtain rfl : first = head := by simpa [Function.withBlock, hblocks] using hhead
      exact sound.front f first hf (by simp [hblocks])

theorem ends_openBlock (h : Ends (openBlock label) b u b') : b.inFunction = true ∧ b.block = none ∧
      b' = b.opened label (some ((b.opened label none b.toCursor).blockCount - 1)) b.toCursor := by
  replace h := ends_get h
  obtain ⟨inside, h⟩ := ends_ensure h
  obtain ⟨closed, h⟩ := ends_ensure h
  cases h
  exact ⟨by simpa using inside, by simpa using closed, rfl⟩

theorem ends_beginBlock (hf : b.current? = some f) (h : Ends (beginBlock label) b u b') :
    b' = b.opened label (some b.blockCount) (b.toCursor.enter label) := by
  obtain ⟨_, b1, ⟨-, -, rfl⟩, h⟩ := ends_then ends_openBlock h
  cases h
  rw [blockCount_opened hf]
  rfl

end Builder

/-- Control comes to a block that can be reached, or to one that cannot. -/
def Cursor.begin (c : Cursor) (label : Ident) (live : Bool) : Cursor :=
  if live then c.enter label else (c.enter label).markDead

variable (c : Cursor)

@[simp] theorem Cursor.currentBlock_begin (label : Ident) (live : Bool) :
    (c.begin label live).currentBlock = some label := by
  cases live <;> rfl

@[simp] theorem Cursor.reachable_begin (label : Ident) (live : Bool) :
    (c.begin label live).reachable = live := by
  cases live <;> rfl

@[simp] theorem Cursor.deadBlocks_begin (label : Ident) (live : Bool) :
    (c.begin label live).deadBlocks = if live then c.deadBlocks else c.deadBlocks ++ [label] := by
  cases live <;> rfl

theorem Codegen.ends_beginAt {s t : State} {live : Bool}
    (hf : s.builder.current? = some f) (h : Ends (beginAt label live) s u t) : t = { s with
      builder := s.builder.opened label (some s.builder.blockCount)
        (s.builder.toCursor.begin label live) } := by
  obtain ⟨_, s1, ⟨b, inner, rfl⟩, h⟩ := ends_then (ends_lift Build) h
  obtain rfl := Builder.ends_beginBlock hf inner
  cases live <;> cases h <;> rfl

end ShaderGen
