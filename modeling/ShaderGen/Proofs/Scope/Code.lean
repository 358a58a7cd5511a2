import ShaderGen.Proofs.Scope.Types

/-!
# Instructions in blocks

An instruction that uses what is known can be appended to the selected block, and from then on its
result is known there. Variables go to the block in front, from where they can be used all over the
function.
-/

namespace ShaderGen

open List Instruction
open Steps (Ends ends_bind ends_then)

variable {block front : Block} {b' : Builder} {d : Draft} {f : Function} {bound id label x : Ident}
  {k : Nat} {v : Version} {b : Builder} {i : Instruction} {α : Type}

/-! ## Appending to a block of the last function -/

theorem flatMap_ids_modify_push {blocks : List Block} (hk : k < blocks.length) (i : Instruction) :
    ((blocks.modify k (·.push i)).flatMap Block.ids).Perm
      (i.result.toList ++ blocks.flatMap Block.ids) := by
  induction blocks generalizing k with
  | nil => cases hk
  | cons block rest ih =>
    rw [perm_iff_count]
    intro x
    cases k with
    | zero =>
      simp only [modify_zero_cons, flatMap_cons, Block.ids, Function.label_push,
        Function.body_push, results_append, results_cons, results_nil, append_nil,
        count_append, count_cons]
      omega
    | succ k =>
      have rest := (ih (k := k) (Nat.lt_of_succ_lt_succ hk)).count_eq x
      simp only [modify_succ_cons, flatMap_cons, count_append] at rest ⊢
      omega

theorem Function.ids_pushTo (hk : k < f.blocks.length) (i : Instruction) :
    (f.pushTo k i).ids.Perm (i.result.toList ++ f.ids) := by
  rw [perm_iff_count]
  intro x
  have blocks := (flatMap_ids_modify_push hk i).count_eq x
  simp only [ids, pushTo, count_append, count_cons] at blocks ⊢
  omega

namespace Builder

variable {l : Ledger} {b : Builder}

/-- A builder whose last function has one more instruction, and possibly one more id. -/
def pushed (b : Builder) (k : Nat) (i : Instruction) (bound : Ident) : Builder :=
  { b with
    output.bound := bound
    output.functions := modifyLast (·.pushTo k i) b.output.functions }

theorem exists_functions (h : b.current? = some f) :
    b.inFunction = true ∧ ∃ fs, b.output.functions = fs ++ [f] := by
  unfold current? at h
  split at h
  · refine ⟨‹_›, ?_⟩
    obtain ⟨fs, hfs⟩ := getLast?_eq_some_iff.1 h
    exact ⟨fs, hfs⟩
  · cases h

theorem current?_pushed (h : b.current? = some f) (k : Nat) (i : Instruction) (bound : Ident) :
    (b.pushed k i bound).current? = some (f.pushTo k i) := by
  obtain ⟨inside, fs, hfs⟩ := exists_functions h
  simp [current?, pushed, inside, hfs]

theorem current?_of_pushed (h : (b.pushed k i bound).current? = some f) :
    ∃ old, b.current? = some old ∧ f = old.pushTo k i := by
  simp only [current?, pushed, getLast?_modifyLast] at h ⊢
  split at h
  · obtain ⟨old, hold, rfl⟩ := Option.map_eq_some_iff.1 h
    exact ⟨old, by simp [*], rfl⟩
  · cases h

theorem shared_pushed : (b.pushed k i bound).Shared l x ↔ b.Shared l x := by
  have ids : (b.pushed k i bound).output.functions.map Function.id
      = b.output.functions.map Function.id := by
    rcases b.output.functions.eq_nil_or_concat' with h | ⟨fs, f, h⟩ <;>
      simp [pushed, h, modifyLast, Function.pushTo]
  rw [Shared, ids]
  exact Iff.rfl

theorem parameterIds_pushed : (b.pushed k i bound).output.parameterIds = b.output.parameterIds := by
  rcases b.output.functions.eq_nil_or_concat' with h | ⟨fs, f, h⟩ <;>
    simp [pushed, h, modifyLast, Function.pushTo, Module.parameterIds]

theorem isLabel_pushed : (b.pushed k i bound).IsLabel l x ↔ b.IsLabel l x := by
  refine or_congr Iff.rfl ⟨?_, ?_⟩
  · rintro ⟨f, hf, hx⟩
    obtain ⟨old, hold, rfl⟩ := current?_of_pushed hf
    exact ⟨old, hold, by simpa using hx⟩
  · rintro ⟨f, hf, hx⟩
    exact ⟨_, current?_pushed hf k i bound, by simpa using hx⟩

theorem blockCount_pushed : (b.pushed k i bound).blockCount = b.blockCount := by
  rcases b.output.functions.eq_nil_or_concat' with h | ⟨fs, f, h⟩ <;>
    simp [blockCount, pushed, h, modifyLast, Function.pushTo]

theorem ids_pushed (h : b.current? = some f) (hk : k < f.blocks.length) (i : Instruction)
    (bound : Ident) : (b.pushed k i bound).output.ids.Perm (i.result.toList ++ b.output.ids) := by
  obtain ⟨-, fs, hfs⟩ := exists_functions h
  rw [perm_iff_count]
  intro x
  have moved := (f.ids_pushTo hk i).count_eq x
  simp only [Module.ids, pushed, hfs, modifyLast_append_singleton, flatMap_append,
    flatMap_cons, flatMap_nil, append_nil, count_append] at moved ⊢
  omega

theorem subset_ids_pushed (h : x ∈ b.output.ids) : x ∈ (b.pushed k i bound).output.ids := by
  rcases b.output.functions.eq_nil_or_concat' with hf | ⟨fs, f, hf⟩
  · simpa [pushed, Module.ids, hf, modifyLast] using h
  · have inside : x ∈ f.ids → x ∈ (f.pushTo k i).ids := by
      intro hx
      by_cases hk : k < f.blocks.length
      · exact (f.ids_pushTo hk i).mem_iff.2 (mem_append_right _ hx)
      · have same : f.blocks.modify k (·.push i) = f.blocks :=
          modify_eq_self (Nat.le_of_not_lt hk)
        simpa [Function.pushTo, Function.ids, same] using hx
    simp only [pushed, Module.ids, hf, modifyLast_append_singleton, flatMap_append,
      flatMap_cons, flatMap_nil, append_nil, mem_append] at h ⊢
    exact h.imp_right fun h => h.imp_right inside

theorem here?_pushed {here : Block} (h : b.here? = some here) : (b.pushed k i bound).here? =
      some (if b.block = some k then here.push i else here) := by
  simp only [here?, Option.bind_eq_some_iff] at h ⊢
  obtain ⟨f, hf, j, hj, hblock⟩ := h
  refine ⟨_, current?_pushed hf k i bound, j, hj, ?_⟩
  rw [Function.getElem?_blocks_pushTo]
  exact ⟨here, hblock, by simp [hj, eq_comm]⟩

theorem fixed_pushed (h : b.Fixed l x) : (b.pushed k i bound).Fixed l x := by
  rcases h with h | ⟨f, hf, hx⟩
  · exact .inl (shared_pushed.2 h)
  · exact .inr ⟨_, current?_pushed hf k i bound, Function.fixedIds_pushTo k i hx⟩

theorem leaves_pushed {t : Ident} (h : b.Leaves l t x)
    (le : b.output.bound ≤ bound) : (b.pushed k i bound).Leaves l t x := by
  obtain ⟨below, f, block, hf, hblock, rfl, reaches⟩ := h
  obtain ⟨j, hj⟩ := mem_iff_getElem?.1 hblock
  have grown : (f.pushTo k i).blocks[j]? = some (if k = j then block.push i else block) :=
    Function.getElem?_blocks_pushTo.2 ⟨block, hj, rfl⟩
  refine ⟨Nat.lt_of_lt_of_le below le, _, _, current?_pushed hf k i bound,
    mem_of_getElem? grown, ?_, ?_⟩
  · split <;> rfl
  · refine reaches.mono (fun _ => shared_pushed.2) (fun _ => Function.fixedIds_pushTo k i) rfl ?_
    intro y hy
    split
    · simp [hy]
    · exact hy

theorem follows_pushed (h : b.output.bound ≤ bound) : b.Follows l l (b.pushed k i bound) :=
  { Follows.refl l b with
    length := length_modifyLast _ _
    bound := h
    blocks := Nat.le_of_eq blockCount_pushed.symm
    quiet := fun _ _ => Nat.le_of_eq blockCount_pushed
    shared := fun _ _ => shared_pushed.2
    fixed := fun _ _ => fixed_pushed
    placed := fun _ _ hx => hx.imp_right subset_ids_pushed
    parameters := fun _ _ hx => by rwa [parameterIds_pushed]
    label := fun _ _ => isLabel_pushed.2
    leaves := fun _ _ _ ht => leaves_pushed ht h }

theorem grows_pushed (h : b.output.bound ≤ bound) : b.Grows l l (b.pushed k i bound) where
  toFollows := follows_pushed h
  known := fun _ x hx => by
    rcases hx with hx | ⟨here, hhere, hx⟩
    · exact .inl (fixed_pushed hx)
    · refine .inr ⟨_, here?_pushed hhere, ?_⟩
      split
      · exact hx.imp_right fun hx => by simp [hx]
      · exact hx
  owed := fun _ _ => Iff.rfl
  opened := rfl

theorem modify_append_singleton (g : α → α) (list : List α) (a : α) :
    (list ++ [a]).modify list.length g = list ++ [g a] := by
  induction list with
  | nil => rfl
  | cons c rest ih => simpa using ih

theorem At.pushed {site : Site v} (h : b.At site front d) (hk : b.block = some k) (i : Instruction)
    (bound : Ident) : (b.pushed k i bound).At site front (d.push [i]) :=
  { h with
    functions := by
      cases hk.symm.trans h.block
      simp [Builder.pushed, h.functions, Site.functions, Function.pushTo, Draft.all, Draft.push,
        Block.push, modify_append_singleton] }

theorem At.pushed_front {site : Site v} (h : b.At site front d) (i : Instruction) (bound : Ident) :
    (b.pushed 0 i bound).At site (front.append [i]) d :=
  { h with
    functions := by
      simp [Builder.pushed, h.functions, Site.functions, Function.pushTo, Block.push,
        Block.append] }

theorem At.frontPosition {site : Site v} (h : b.At site front d)
    (hf : b.output.functions.getLast? = some f) (hlabel : b.variablesBlock = some label) :
    f.labels.findIdx? (· == label) = some 0 := by
  cases h.variablesBlock.symm.trans hlabel
  obtain rfl : { site.head with blocks := front :: d.all } = f := by
    simpa [h.functions, Site.functions] using hf
  simp [Function.labels, findIdx?_cons]

theorem same_pushed (h : b.output.bound ≤ bound) (inside : b.inFunction = true)
    (hk : b.block = some k) (plain : i.op.isControl = false) :
    Builder.Same l b l (b.pushed k i bound) where
  toSame := .refl l
  emits := by
    refine ⟨h, fun outside => by simp [inside] at outside, fun site front d at_ => ?_⟩
    refine ⟨[], .plain [i], ?_, by simp, by simpa [Piece.Valid] using plain, .nil⟩
    simpa [Piece.emit] using at_.pushed hk i bound

/-- In place of the function under construction there is another one, and the others are the same.
-/
theorem Sound.replaced {f' : Function} {l' : Ledger} {b' : Builder} (sound : b.Sound l)
    (current : b.current? = some f) (current' : b'.current? = some f')
    (others : b'.output.functions.dropLast = b.output.functions.dropLast)
    (shared : ∀ x, b.Shared l x → b'.Shared l' x) (tables : b'.Tables l') (order : b'.Orderly l')
    (distinct : (l'.owed.map Prod.fst ++ b'.output.ids).Nodup)
    (below : ∀ x, b'.Placed l' x → x < b'.output.bound)
    (head : ∀ x ∈ f'.returnType :: f'.type :: f'.parameters.map Parameter.type,
      x ∈ f.returnType :: f.type :: f.parameters.map Parameter.type ∨ b'.Shared l' x)
    (checks : f'.Checks (b'.Shared l') l'.avail (b'.IsLabel l'))
    (asks : f'.Asks (b'.Shared l') l'.avail) (here : ∀ k, b'.block = some k →
      0 < k ∧ ∃ block, b'.here? = some block ∧ b'.currentBlock = some block.label)
    (front : ∀ block, f'.blocks.head? = some block → b'.variablesBlock = some block.label) :
    b'.Sound l' := by
  obtain ⟨inside, fs, hfs⟩ := exists_functions current
  obtain ⟨inside', fs', hfs'⟩ := exists_functions current'
  obtain rfl : fs' = fs := by simpa [hfs, hfs'] using others
  have new : ∀ {g}, b'.current? = some g → g = f' := fun hg =>
    Option.some.inj (hg.symm.trans current')
  refine ⟨⟨tables, distinct, below, fun g hg x hx => ?_, fun g hg => ?_, fun g hg =>
    new hg ▸ checks,
    fun g hg => new hg ▸ asks, here, fun g block hg => new hg ▸ front block⟩, order⟩
  · rw [hfs'] at hg
    rcases mem_append.1 hg with hg | hg
    · exact shared x (sound.heads g (by simp [hfs, hg]) x hx)
    · obtain rfl := mem_singleton.1 hg
      exact (head x hx).elim (fun old => shared x (sound.heads f (by simp [hfs]) x old)) id
  · obtain ⟨avail, old, asks⟩ := sound.finished g
      (by simpa [finished, inside, inside', hfs, hfs'] using hg)
    exact ⟨avail, old.mono shared (fun _ => id) fun _ _ => rfl, asks.mono shared fun _ => id⟩

theorem Sound.pushed (sound : b.Sound l) (hs : l.strict)
    (current : b.current? = some f) (hk : f.blocks[k]? = some block)
    (result : i.result = none ∧ bound = b.output.bound ∨
      i.result = some b.output.bound ∧ bound = b.output.bound + 1)
    (checks : i.Checks (f.Reaches (b.Shared l) l.avail block.label block.body) l.avail
      (b.IsLabel l)) (front : k = 0 → ∀ x ∈ i.valueIds, b.Shared l x)
    (joins : ∀ q ∈ i.incoming, ∃ (j : Nat) (source : Block), f.blocks[j]? = some source ∧
      source.label = q.2 ∧ f.Reaches (b.Shared l) l.avail source.label source.body q.1) :
    (b.pushed k i bound).Sound l := by
  have le : b.output.bound ≤ bound := by
    rcases result with ⟨-, rfl⟩ | ⟨-, rfl⟩
    · exact Nat.le_refl _
    · exact Nat.le_succ _
  have follows : b.Follows l l (b.pushed k i bound) := follows_pushed le
  have length : k < f.blocks.length := (List.getElem?_eq_some_iff.1 hk).1
  have ids := ids_pushed current length i bound
  have tables : b.SameTables (b.pushed k i bound) := ⟨rfl, rfl, rfl, rfl, rfl, rfl⟩
  refine sound.replaced current (current?_pushed current k i bound) (dropLast_modifyLast _ _)
    (fun _ => shared_pushed.2) (sound.toTables.mono tables follows (fun _ => id) hs)
    (sound.order.mono rfl (fun _ hx => by rwa [parameterIds_pushed]) (fun _ => Iff.rfl) fun _ _ =>
    id)
    ?_ (fun x hx => ?_) (fun _ => .inl) ?_ ?_ (fun j hj => ?_) fun head hhead => ?_
  · rcases result with ⟨none, rfl⟩ | ⟨some, rfl⟩
    · rw [none, Option.toList_none, nil_append] at ids
      exact ((perm_append_left_iff _).2 ids).nodup_iff.2 sound.distinct
    · rw [some] at ids
      exact sound.distinct_cons ids
  · rcases result with ⟨none, rfl⟩ | ⟨some, rfl⟩
    · rw [none, Option.toList_none, nil_append] at ids
      exact sound.below x (hx.imp_right ids.mem_iff.1)
    · rw [some] at ids
      exact sound.below_cons ids hx
  · exact ((sound.current f current).push hk checks front joins).mono (fun _ => shared_pushed.2)
      (fun _ => isLabel_pushed.2) fun _ _ => rfl
  · refine (sound.asks f current).mono (fun _ => shared_pushed.2) fun x hx => ?_
    exact (Function.ids_pushTo length i).mem_iff.2 (mem_append_right _ hx)
  · obtain ⟨positive, here, hhere, label⟩ := sound.here j hj
    refine ⟨positive, _, here?_pushed hhere, ?_⟩
    split <;> exact label
  · rw [head?_eq_getElem?, Function.getElem?_blocks_pushTo] at hhead
    obtain ⟨head', hhead', rfl⟩ := hhead
    have := sound.front f head' current (by rw [head?_eq_getElem?, hhead'])
    split <;> exact this

end Builder

/-! ## Instructions that leave control alone -/

namespace Instruction

variable {i : Instruction}

theorem valueIds_of_plain (h : i.op.isControl = false) : i.valueIds = i.refs := by
  unfold valueIds refs
  split <;> simp_all [Opcode.isControl]

theorem labelIds_of_plain (h : i.op.isControl = false) : i.labelIds = [] := by
  unfold labelIds
  split <;> simp_all [Opcode.isControl]

theorem targets_of_plain (h : i.op.isControl = false) : i.targets = [] := by
  unfold targets
  split <;> simp_all [Opcode.isControl]

theorem incoming_of_plain (h : i.op.isControl = false) : i.incoming = [] := by
  unfold incoming
  split <;> simp_all [Opcode.isControl]

end Instruction

namespace Builder

variable {l : Ledger} {b : Builder} {pointerType type : Ident} {u : Unit}

theorem Known.reaches (current : b.current? = some f) (hk : b.block = some k)
    (hblock : f.blocks[k]? = some block) (known : b.Known l x) :
    f.Reaches (b.Shared l) l.avail block.label block.body x := by
  have here : b.here? = some block := by simp [here?, current, hk, hblock]
  rcases known with (shared | ⟨g, hg, hx⟩) | ⟨h, hh, hx⟩
  · exact .inl shared
  · cases hg.symm.trans current
    exact .inr (.inl hx)
  · cases hh.symm.trans here
    exact .inr (.inr hx)

theorem Sound.selected (sound : b.Sound l) (hk : b.block = some k) :
    0 < k ∧ ∃ f block, b.current? = some f ∧ f.blocks[k]? = some block ∧
      b.here? = some block ∧ b.currentBlock = some block.label := by
  obtain ⟨positive, block, hhere, label⟩ := sound.here k hk
  have hhere' := hhere
  simp only [here?, Option.bind_eq_some_iff] at hhere'
  obtain ⟨f, current, j, hj, hblock⟩ := hhere'
  cases hj.symm.trans hk
  exact ⟨positive, f, block, current, hblock, hhere, label⟩

theorem plain_checks (plain : i.op.isControl = false)
    (current : b.current? = some f) (hk : b.block = some k) (hblock : f.blocks[k]? = some block)
    (known : ∀ x ∈ i.refs, b.Known l x) :
    i.Checks (f.Reaches (b.Shared l) l.avail block.label block.body) l.avail (b.IsLabel l) := by
  refine ⟨?_, ?_, ?_⟩
  · rw [valueIds_of_plain plain]
    exact fun x hx => (known x hx).reaches current hk hblock
  · simp [labelIds_of_plain plain]
  · simp [targets_of_plain plain]

theorem Sound.pushed_plain (sound : b.Sound l) (hs : l.strict)
    (hk : b.block = some k) (plain : i.op.isControl = false)
    (result : i.result = none ∧ bound = b.output.bound ∨
      i.result = some b.output.bound ∧ bound = b.output.bound + 1)
    (known : ∀ x ∈ i.refs, b.Known l x) : (b.pushed k i bound).Sound l := by
  obtain ⟨positive, f, block, current, hblock, -, -⟩ := sound.selected hk
  refine sound.pushed hs current hblock result (plain_checks plain current hk hblock known) ?_ ?_
  · exact fun zero => absurd zero (Nat.ne_of_gt positive)
  · simp [incoming_of_plain plain]

theorem Sound.known_pushed (sound : b.Sound l) (hk : b.block = some k) (hx : i.result = some x) :
    (b.pushed k i bound).Known l x ∧ (b.pushed k i bound).Placed l x := by
  obtain ⟨-, f, block, current, hblock, here, -⟩ := sound.selected hk
  constructor
  · exact .inr ⟨_, here?_pushed here, .inr (by simp [hk, hx])⟩
  · have length : k < f.blocks.length := (List.getElem?_eq_some_iff.1 hblock).1
    exact .inr ((ids_pushed current length i bound).mem_iff.2 (by simp [hx]))

theorem ends_append (h : Ends (append i) b u b') :
    ∃ k, b.inFunction = true ∧ b.block = some k ∧ b' = b.pushed k i b.output.bound := by
  replace h := ends_get h
  split at h
  · cases h
    exact ⟨_, ‹_›, ‹_›, rfl⟩
  · cases h

theorem append_ends (inside : b.inFunction = true) (selected : b.block = some k)
    (i : Instruction) : Ends (append i) b () (b.pushed k i b.output.bound) := by
  have looked : Ends (get : Build Builder) b b b := rfl
  refine Steps.bind_ends looked ?_
  simp only [inside, selected]
  rfl

theorem ends_emit {op : Opcode} {operands : List Operand}
    (h : Ends (emit op type operands) b id b') :
    id = b.output.bound ∧ ∃ k, b.inFunction = true ∧ b.block = some k ∧ b' =
      b.pushed k { op, type := some type, result := some id, operands } (b.output.bound + 1) := by
  obtain ⟨x, b1, hfresh, h⟩ := ends_bind h
  cases hfresh
  obtain ⟨u, b2, happend, h⟩ := ends_bind h
  cases h
  obtain ⟨k, inside, hk, rfl⟩ := ends_append happend
  exact ⟨rfl, k, inside, hk, rfl⟩

theorem emit_runs (op : Opcode) (type : Ident) (operands : List Operand)
    (plain : op.isControl = false) :
    Runs (.shared type :: (Operand.ids operands).map .value) (emit op type operands)
      ([.value ·]) := by
  intro l b id b' sound hold ends
  obtain ⟨rfl, k, inside, hk, rfl⟩ := ends_emit ends
  have known : l.strict → ∀ x ∈ type :: Operand.ids operands, b.Known l x := by
    intro hs x hx
    rcases mem_cons.1 hx with rfl | hx
    · have global : b.Global l x := hold _ mem_cons_self hs
      exact .inl (.inl global.shared)
    · exact (hold _ (mem_cons_of_mem _ (mem_map_of_mem hx)) hs).1
  refine ⟨l, fun hs => ?_, grows_pushed (Nat.le_succ _),
    same_pushed (Nat.le_succ _) inside hk plain, ?_⟩
  · exact (sound hs).pushed_plain hs hk plain (.inr ⟨rfl, rfl⟩) (known hs)
  · exact fun φ hφ => mem_singleton.1 hφ ▸ fun hs => (sound hs).known_pushed hk rfl

theorem emitVoid_runs (op : Opcode) (operands : List Operand) (plain : op.isControl = false) :
    Runs ((Operand.ids operands).map .value) (emitVoid op operands) fun _ => [] := by
  intro l b u b' sound hold ends
  obtain ⟨k, inside, hk, rfl⟩ := ends_append ends
  have known : l.strict → ∀ x ∈ Operand.ids operands, b.Known l x :=
    fun hs x hx => (hold _ (mem_map_of_mem hx) hs).1
  refine ⟨l, fun hs => ?_, grows_pushed (Nat.le_refl _),
    same_pushed (Nat.le_refl _) inside hk plain, ?_⟩
  · exact (sound hs).pushed_plain hs hk plain (.inl ⟨rfl, rfl⟩) (known hs)
  · exact fun φ hφ => by cases hφ

/-! ## Variables -/

/-- A variable as an instruction. -/
def variableInstruction (pointerType : Ident) (storage : StorageClass) (init : Option Ident)
    (id : Ident) : Instruction :=
  { op := .var, type := some pointerType, result := some id
    operands := .storage storage :: Operand.refs init.toList }

theorem ends_ensure {c : Prop} {_ : Decidable c} {failure : Failure}
    {f : PUnit → Build α} {a : α} (h : Ends (if c then throw failure >>= f else f ⟨⟩) b a b') :
    ¬ c ∧ Ends (f ⟨⟩) b a b' := by
  split at h
  · cases h
  · exact ⟨‹_›, h⟩

theorem selectBlock_eq (k : Nat) : selectBlock (some k) = (do
    let b ← get
    if b.inFunction then
      if k < b.blockCount then modify fun b => { b with block := some k }
      else throw (.building .blockNotFound)
    else throw (.building .detachedBlock)) := by
  funext b
  change (if (!b.inFunction) = true then _ else if k < b.blockCount then _ else _ : Build Unit) b =
    (if b.inFunction then if k < b.blockCount then _ else _ else _ : Build Unit) b
  by_cases inside : b.inFunction = true
  · rw [if_neg (by simp [inside]), if_pos inside]
    split <;> rfl
  · rw [if_pos (by simpa using inside), if_neg inside]
    rfl

theorem ends_selectBlock {position : Option Nat} (h : Ends (selectBlock position) b u b') :
    b' = { b with block := position } ∧ ∀ k, position = some k → b.inFunction = true := by
  cases position with
  | none =>
    cases h
    exact ⟨rfl, fun _ h => by cases h⟩
  | some k =>
    replace h := ends_get h
    obtain ⟨inside, h⟩ := ends_ensure h
    split at h
    · cases h
      exact ⟨rfl, fun _ _ => by simpa using inside⟩
    · cases h

theorem ends_blockPosition (h : Ends (blockPosition label) b k b') :
    b' = b ∧ ∃ f, b.output.functions.getLast? = some f ∧
      f.labels.findIdx? (· == label) = some k := by
  replace h := ends_get h
  split at h
  · cases h
  · split at h
    · cases h
      exact ⟨rfl, _, ‹_›, by simpa [Function.labels, findIdx?_map, Function.comp_def] using ‹_›⟩
    · cases h

theorem ends_variableOf {storage : StorageClass} {init : Option Ident}
    (h : Ends (variableOf pointerType storage init) b id b') : id = b.output.bound ∧
      ((∃ k, b.inFunction = true ∧ b.block = some k ∧ b' =
        b.pushed k (variableInstruction pointerType storage init id) (b.output.bound + 1)) ∨
      ((b.inFunction = false ∨ b.block = none) ∧ b' =
        { b with
          output.bound := b.output.bound + 1
          output.globals :=
            b.output.globals ++ [variableInstruction pointerType storage init id] })) := by
  obtain ⟨x, b1, hfresh, h⟩ := ends_bind h
  cases hfresh
  obtain ⟨u, b2, happend, h⟩ := ends_bind h
  cases h
  refine ⟨rfl, ?_⟩
  replace happend := ends_get happend
  split at happend
  · cases happend
    exact .inl ⟨_, ‹_›, ‹_›, rfl⟩
  · rename_i none
    cases happend
    refine .inr ⟨?_, rfl⟩
    cases inside : b.inFunction with
    | false => exact .inl rfl
    | true =>
      cases hblock : b.block with
      | none => exact .inr rfl
      | some k => exact absurd hblock (none k inside)

theorem variableOf_runs (pointerType : Ident) (storage : StorageClass) (init : Option Ident) :
    Runs (.outside :: (pointerType :: init.toList).map .shared)
      (variableOf pointerType storage init) ([.anywhere ·]) := by
  intro l b id b' sound hold ends
  have outside : l.strict → l.free ∨ b.inFunction = false := hold _ mem_cons_self
  have global : l.strict → ∀ x ∈ (variableInstruction pointerType storage init id).refs,
      b.Global l x := by
    intro hs x hx
    refine hold (.shared x) (mem_cons_of_mem _ (mem_map_of_mem ?_)) hs
    simpa [variableInstruction, refs, Instruction.ids] using hx
  obtain ⟨rfl, ⟨k, inside, hk, rfl⟩ | ⟨-, rfl⟩⟩ := ends_variableOf ends
  · -- a variable among the instructions of a block is not at module scope
    have free : l.strict → l.free := fun hs => (outside hs).resolve_right (by simp [inside])
    refine ⟨l, fun hs => ?_, grows_pushed (Nat.le_succ _),
      same_pushed (Nat.le_succ _) inside hk rfl, ?_⟩
    · exact (sound hs).pushed_plain hs hk rfl (.inr ⟨rfl, rfl⟩) fun x hx =>
        .inl (.inl (global hs x hx).shared)
    · refine Fact.allHold_cons (fun hs => ⟨?_, ((sound hs).known_pushed hk rfl).2⟩) Fact.allHold_nil
      exact .inr (.inr (.inr (.inr (.inr (free hs)))))
  · have declares := declares_global b
      (i := variableInstruction pointerType storage init b.output.bound) rfl
    refine ⟨l, fun hs => ?_, declares.grows, declares.same, ?_⟩
    · exact (sound hs).globalPushed hs rfl (by simp [variableInstruction]) fun x hx =>
        .inl (global hs x hx)
    · have new :
        (b.globalPushed (variableInstruction pointerType storage init b.output.bound)).Global
          l b.output.bound := global_globalPushed rfl
      exact Fact.allHold_cons (fun _ => ⟨new.shared, new.placed⟩) Fact.allHold_nil

theorem list_runs (x : Ident) :
    Runs [.anywhere x] (modify fun b => { b with interface := b.interface ++ [x] } : Emit PUnit)
      fun _ => [] := by
  refine .notes (fun _ => ⟨⟨rfl, rfl, rfl⟩, rfl, rfl, rfl, fun _ _ => id⟩)
    fun l b hs sound hold => ?_
  refine { sound.toTables with interface := fun y hy => ?_ }
  rcases mem_append.1 hy with hy | hy
  · exact sound.interface y hy
  · exact mem_singleton.1 hy ▸ hold _ mem_cons_self hs

theorem globalVariable_runs (type : Ident) (storage : StorageClass) (text : String)
    (init : Option Ident) :
    Runs (.outside :: (type :: init.toList).map .shared) (globalVariable type storage text init)
      ([.anywhere ·]) := by
  refine .bind (h := by simp) (typePointer_provides storage type).runs fun pointer => ?_
  refine .bind (variableOf_runs pointer storage init) (h := by simp +contextual) fun id => ?_
  refine .bind (name_provides id text).runs fun _ => ?_
  refine .bind .getEmit fun b => ?_
  exact .guard (fun _ => list_runs id) (.pure)

theorem Sound.frontPosition (sound : b.Sound l) (current : b.current? = some f)
    (hlabel : b.variablesBlock = some label) (hk : f.labels.findIdx? (· == label) = some k) :
    k = 0 ∧ ∃ block, f.blocks[0]? = some block := by
  cases hblocks : f.blocks with
  | nil => simp [Function.labels, hblocks] at hk
  | cons block rest =>
    have front := sound.front f block current (by simp [hblocks])
    cases front.symm.trans hlabel
    refine ⟨?_, block, rfl⟩
    simpa [Function.labels, hblocks, findIdx?_cons, eq_comm] using hk

theorem Sound.pushed_front (sound : b.Sound l) (hs : l.strict)
    (current : b.current? = some f) (hblock : f.blocks[0]? = some block)
    (shared : b.Shared l pointerType) :
    (b.pushed 0 (variableInstruction pointerType .function none b.output.bound)
      (b.output.bound + 1)).Sound l := by
  refine sound.pushed hs current hblock (.inr ⟨rfl, rfl⟩) ⟨?_, ?_, ?_⟩ ?_ ?_
  · intro x hx
    obtain rfl : x = pointerType := by
      simpa [variableInstruction, valueIds, Instruction.ids] using hx
    exact .inl shared
  · simp [variableInstruction, labelIds]
  · simp [variableInstruction, targets]
  · intro _ x hx
    obtain rfl : x = pointerType := by
      simpa [variableInstruction, valueIds, Instruction.ids] using hx
    exact shared
  · simp [variableInstruction, incoming]

theorem fixed_pushed_front (current : b.current? = some f)
    (hblock : f.blocks[0]? = some block) (hx : i.result = some x) :
    (b.pushed 0 i bound).Fixed l x := by
  refine .inr ⟨_, current?_pushed current 0 i bound, mem_append_right _ ?_⟩
  have head : (f.pushTo 0 i).blocks[0]? = some (block.push i) :=
    Function.getElem?_blocks_pushTo.2 ⟨block, hblock, by simp⟩
  simp [head?_eq_getElem?, head, hx]

theorem ends_localVariable {text : String}
    (ends : Ends (localVariable text type) b id b') : ∃ pointer b1 label k f,
      Ends (typePointer .function type) b pointer b1 ∧ b1.inFunction = true ∧
      b1.variablesBlock = some label ∧ b1.output.functions.getLast? = some f ∧
      f.labels.findIdx? (· == label) = some k ∧ id = b1.output.bound ∧
      Ends (name id text) (b1.pushed k (variableInstruction pointer .function none id) (id + 1))
        () b' := by
  obtain ⟨pointer, b1, hpointer, ends⟩ := ends_bind ends
  obtain ⟨b1, hpointer, rfl⟩ := ends_lift Emit hpointer
  replace ends := ends_get ends
  split at ends
  · cases ends
  obtain ⟨k, _, ⟨rfl, f, last, found⟩, ends⟩ := ends_then ends_blockPosition ends
  obtain ⟨_, b2, ⟨rfl, inside⟩, ends⟩ := ends_then ends_selectBlock ends
  obtain ⟨x, b3, hvariable, ends⟩ := ends_bind ends
  obtain ⟨b3, hvariable, rfl⟩ := ends_lift Emit hvariable
  obtain ⟨_, b4, ⟨rfl, -⟩, ends⟩ := ends_then ends_selectBlock ends
  obtain ⟨_, b5, hname, ends⟩ := ends_bind ends
  obtain ⟨b5, hname, rfl⟩ := ends_lift Emit hname
  obtain ⟨rfl, rfl⟩ := Steps.ends_pure ends
  have inside := inside k rfl
  obtain ⟨rfl, ⟨j, -, hj, rfl⟩ | ⟨outside, -⟩⟩ := ends_variableOf hvariable
  · cases hj
    exact ⟨pointer, _, _, k, f, hpointer, inside, ‹_›, last, found, rfl, hname⟩
  · exact absurd inside (by simpa [World.builder] using outside)

theorem localVariable_runs (text : String) (type : Ident) :
    Runs [.shared type] (localVariable text type) ([.fixed ·]) := by
  intro l b id b' sound hold ends
  obtain ⟨pointer, b1, label, k, f, hpointer, inside, hlabel, hf, hk, rfl, ends⟩ :=
    ends_localVariable ends
  have current : b1.current? = some f := by simp [current?, inside, hf]
  obtain ⟨l1, sound1, grows1, same1, hold1⟩ :=
    (typePointer_provides .function type).runs l b pointer b1 sound hold hpointer
  let i := variableInstruction pointer .function none b1.output.bound
  have grows2 : b1.Grows l1 l1 (b1.pushed k i (b1.output.bound + 1)) := grows_pushed (Nat.le_succ _)
  have same2 : Builder.Same l1 b1 l1 (b1.pushed k i (b1.output.bound + 1)) := by
    refine ⟨.refl l1, Nat.le_succ _, fun out => by simp [inside] at out, fun site front d at_ => ?_⟩
    cases hk.symm.trans (at_.frontPosition hf hlabel)
    refine ⟨[i], .plain [], ?_, by simp [i, variableInstruction, IsLocal, Operand.refs],
      by simp [Piece.Valid], .nil⟩
    simpa [Piece.emit, Draft.push] using at_.pushed_front i (b1.output.bound + 1)
  have first : l1.strict → k = 0 ∧ ∃ block, f.blocks[0]? = some block :=
    fun hs => (sound1 hs).frontPosition current hlabel hk
  have sound2 : l1.strict → (b1.pushed k i (b1.output.bound + 1)).Sound l1 := by
    intro hs
    obtain ⟨rfl, block, hblock⟩ := first hs
    have global : b1.Global l1 pointer := hold1 (.shared pointer) (by simp) hs
    exact (sound1 hs).pushed_front hs current hblock global.shared
  have fixed : l1.strict → (b1.pushed k i (b1.output.bound + 1)).Fixed l1 b1.output.bound ∧
      (b1.pushed k i (b1.output.bound + 1)).Placed l1 b1.output.bound := by
    intro hs
    obtain ⟨rfl, block, hblock⟩ := first hs
    have length : 0 < f.blocks.length := (List.getElem?_eq_some_iff.1 hblock).1
    refine ⟨fixed_pushed_front current hblock rfl, .inr ?_⟩
    exact (ids_pushed current length i _).mem_iff.2 mem_cons_self
  have rest : Runs [.fixed b1.output.bound] (name b1.output.bound text)
      fun _ => [.fixed b1.output.bound] := (name_provides _ text).runs.last
  obtain ⟨l', sound', grows', same', hold'⟩ := rest l1 _ () b' sound2
    (fun φ hφ => mem_singleton.1 hφ ▸ fixed) ends
  exact ⟨l', sound', grows1.trans (grows2.trans grows'),
    World.same_trans same1 (World.same_trans same2 same'), hold'⟩

end Builder

end ShaderGen
