import ShaderGen.Proofs.Control.Program

/-!
# Block graphs are well formed

Every function of a module that code generation makes has a well-formed block graph
(`Program.wellFormed_of_generate`): its labels differ, its blocks end with their only terminators,
the labels that are named belong to blocks of the same function, and the block in front holds
nothing but variables, leads to the second block, and is never come back to.
-/

namespace ShaderGen

open List Junction

variable {label x : Ident} {i : Instruction} {bodies : List Body} {ending : List Instruction}

/-! ## Labels in instructions -/

namespace Instruction

@[simp, grind =] theorem labelIds_goto (t : Ident) : (goto t).labelIds = [t] := rfl

@[simp, grind =] theorem labelIds_fork (c x y : Ident) : (fork c x y).labelIds = [x, y] := rfl

@[simp, grind =] theorem labelIds_selecting (m : Ident) (k : Nat) :
    (selecting m k).labelIds = [m] := rfl

@[simp, grind =] theorem labelIds_looping (m n : Ident) (advice : List Operand) :
    (looping m n advice).labelIds = m :: n :: Operand.ids advice := rfl

@[simp, grind =] theorem labelIds_choice (s : Ident) (targets : List Operand) :
    (choice s targets).labelIds = Operand.ids targets := rfl

@[simp, grind =] theorem labelIds_nowhere : nowhere.labelIds = [] := rfl

theorem labelIds_of_isFinal (h : i.op.isFinal) : i.labelIds = [] := by
  unfold labelIds
  split <;> simp_all [Opcode.isFinal]

end Instruction

namespace Junction

/-- The labels that the ending of a block names. -/
def names (j : Junction) : List Ident := j.ending.flatMap Instruction.labelIds

@[grind =] theorem mem_names_onward {target : Ident} {live : Bool} :
    x ∈ (Junction.mk label (onward live target)).names ↔ live = true ∧ x = target := by
  cases live <;> simp [onward, names]

@[grind =] theorem mem_names_goto {target : Ident} :
    x ∈ (Junction.mk label [.goto target]).names ↔ x = target := mem_singleton

@[simp, grind =] theorem names_single (label : Ident) (i : Instruction) :
    (Junction.mk label [i]).names = i.labelIds := by
  simp [names]

@[simp, grind =] theorem names_pair (label : Ident) (i k : Instruction) :
    (Junction.mk label [i, k]).names = i.labelIds ++ k.labelIds := by
  simp [names]

theorem targets_subset_names {j : Junction} (h : x ∈ j.targets) : x ∈ j.names := by
  obtain ⟨i, hi, hx⟩ := mem_flatMap.1 h
  exact mem_flatMap.2 ⟨i, hi, i.targets_subset_labelIds hx⟩

end Junction

theorem Arms.start_mem (arms : Arms) (merge : Ident) :
    arms.start merge = merge ∨ arms.start merge ∈ arms.labels := by
  cases arms with
  | nil => exact .inl rfl
  | cons label body rest => exact .inr mem_cons_self

theorem Arms.heads_subset (arms : Arms) : ∀ x ∈ arms.heads, x ∈ arms.labels := by
  intro x h
  cases arms with
  | nil => exact h
  | cons label body rest =>
    rcases mem_cons.1 h with rfl | h
    · exact mem_cons_self
    · simp [Arms.labels, rest.heads_subset x h]

@[grind →] theorem LoopLabels.names_back {l : LoopLabels} {again : Option Ident}
    (h : x ∈ (Junction.mk label (l.back again)).names) : x = l.header ∨ x = l.merge := by
  cases again <;> simp_all [back]

/-- All labels that the blocks of an outline name. -/
def namesOf (js : List Junction) : List Ident := js.flatMap names

@[simp, grind =] theorem namesOf_nil : namesOf [] = [] := rfl

@[simp, grind =] theorem namesOf_cons (j : Junction) (js : List Junction) :
    namesOf (j :: js) = j.names ++ namesOf js := rfl

@[simp, grind =] theorem namesOf_append (js ks : List Junction) :
    namesOf (js ++ ks) = namesOf js ++ namesOf ks := flatMap_append

/-- A piece names no labels but its own and those that it may leave for. -/
theorem Piece.names_outline : (∀ (piece : Piece) (exits : List Ident) (label : Ident) (live : Bool),
      piece.Valid exits → ∀ x ∈ namesOf (piece.outline label live), x ∈ piece.labels ∨ x ∈ exits) ∧
    ∀ (arms : Arms) (exits : List Ident) (merge : Ident) (live : Bool), arms.Valid exits →
      ∀ x ∈ namesOf (arms.outline merge live), x ∈ arms.labels ∨ x = merge ∨ x ∈ exits := by
  apply Piece.labels.mutual_induct
  case case3 =>
    intro last follow _ _ _ final
    simp [Piece.outline, names, Instruction.labelIds_of_isFinal final]
  case case7 =>
    intro left isAnd _ _ _ _ _
    cases isAnd <;> grind [Piece.outline, Piece.labels, Piece.Valid, logicalFork]
  all_goals
    intros
    grind [Piece.outline, Piece.labels, Piece.Valid, Arms.outline, Arms.labels, Arms.Valid,
      Arms.heads_subset, Arms.start_mem]

theorem Ending.exists_last (h : Ending ending) :
    ∃ merges last, ending = merges ++ [last] ∧ last.op.isTerminator ∧
      ∀ i ∈ merges, i.op.isTerminator = false := by
  cases h with
  | final h => exact ⟨[], _, rfl, Opcode.isTerminator_of_isFinal h, by simp⟩
  | nowhere | goto | test => exact ⟨[], _, rfl, rfl, by simp⟩
  | select | switch | loop => exact ⟨[_], _, rfl, rfl, by simp; rfl⟩

/-! ## Outlines of bodies -/

namespace Body

variable {b : Body}

theorem Valid.ending_last (h : b.Valid) : Ending [b.last] := by
  have last := h.last
  split at last
  · exact .final last
  · exact last ▸ .nowhere

theorem Valid.outlined (h : b.Valid) : List.Forall₂ Outlines b.outline b.blocks := by
  have start : Draft.Outlined ⟨⟨[], b.earlier⟩, b.code, [], true⟩ [] := ⟨.nil, by simp⟩
  have notHeader : b.last.op ≠ .loopMerge := by
    intro isLoop
    have last := h.last
    split at last
    · simp [isLoop, Opcode.isFinal] at last
    · simp [last, Instruction.nowhere] at isLoop
  have code : ((b.piece.emit _).close [b.last]).Outlined _ :=
    (b.piece.outlined_emit [] _ _ h.piece start).close h.ending_last (by simpa using notHeader)
  rw [Piece.label_emit, nil_append] at code
  refine .cons ⟨rfl, ⟨b.vars, rfl, fun i hi => ?_, ?_⟩, .goto _⟩ code
  · rw [(h.vars i hi).1]
    rfl
  · rintro ⟨i, hi, isLoop⟩
    obtain rfl := mem_singleton.1 hi
    cases isLoop

theorem Valid.names (h : b.Valid) : ∀ x ∈ namesOf b.outline, x ∈ b.code :: b.piece.labels := by
  intro x hx
  have inner := Piece.names_outline.1 b.piece [] b.code true h.piece x
  have last : b.last.labelIds = [] := by
    have last := h.last
    split at last
    · exact Instruction.labelIds_of_isFinal last
    · exact last ▸ rfl
  simp only [outline, namesOf_cons, namesOf_append, namesOf_nil, names_single,
    Instruction.labelIds_goto, last, mem_append, mem_cons, not_mem_nil, or_false] at hx inner ⊢
  exact hx.imp_right inner

end Body

/-! ## Functions -/

/-- The label of a block and what it says about where control goes. -/
def Block.outline (b : Block) : Junction := ⟨b.label, b.body.filter fun i => i.op.isFlow⟩

/-- The labels that branches, switches and merge instructions of a block name. -/
def Block.names (b : Block) : List Ident := b.outline.names

/-- Where control can go from a block. -/
def Block.targets (b : Block) : List Ident := b.body.flatMap Instruction.targets

/-- What makes the block graph of a function well formed. -/
structure Function.WellFormed (f : Function) : Prop where
  distinct : f.labels.Nodup
  /-- Every block ends with its only terminator. -/
  terminated : ∀ b ∈ f.blocks, ∃ code last, b.body = code ++ [last] ∧ last.op.isTerminator ∧
    ∀ i ∈ code, i.op.isTerminator = false
  /-- Only blocks of the function are named. -/
  named : ∀ b ∈ f.blocks, ∀ x ∈ b.names, x ∈ f.labels
  /-- The first block holds variables and leads to the second one. -/
  front : ∃ first second rest vars, f.blocks = first :: second :: rest ∧
    first.body = vars ++ [.goto second.label] ∧ ∀ i ∈ vars, i.IsLocal
  /-- Nothing leads to the first block. -/
  entry : ∀ first, f.blocks.head? = some first → ∀ b ∈ f.blocks, first.label ∉ b.targets

theorem Instruction.targets_of_isFlow (h : i.op.isFlow = false) : i.targets = [] := by
  unfold targets
  split <;> simp_all [Opcode.isFlow, Opcode.isTerminator]

theorem Ending.isFlow (h : Ending ending) : ∀ i ∈ ending, i.op.isFlow := by
  cases h with
  | final h => simp [Opcode.isFlow, Opcode.isTerminator_of_isFinal h]
  | _ => simp [Opcode.isFlow, Opcode.isTerminator, Opcode.isMerge, Instruction.nowhere,
      Instruction.goto, Instruction.fork, Instruction.selecting, Instruction.choice,
      Instruction.looping]

namespace Junction.Outlines

variable {j : Junction} {b : Block}

theorem outline (h : j.Outlines b) : b.outline = j := by
  obtain ⟨code, body, straight, -⟩ := h.body
  have none : code.filter (fun i => i.op.isFlow) = [] :=
    filter_eq_nil_iff.2 fun i hi => by simp [straight i hi]
  rw [Block.outline, body, filter_append, none, filter_eq_self.2 h.ending.isFlow, h.label]
  rfl

theorem targets (h : j.Outlines b) : b.targets = j.targets := by
  obtain ⟨code, body, straight, -⟩ := h.body
  have none : code.flatMap Instruction.targets = [] :=
    flatMap_eq_nil_iff.2 fun i hi => Instruction.targets_of_isFlow (straight i hi)
  rw [Block.targets, body, flatMap_append, none]
  rfl

theorem terminated (h : j.Outlines b) :
    ∃ code last, b.body = code ++ [last] ∧ last.op.isTerminator ∧
      ∀ i ∈ code, i.op.isTerminator = false := by
  obtain ⟨code, body, straight, -⟩ := h.body
  obtain ⟨merges, last, split, isLast, others⟩ := h.ending.exists_last
  refine ⟨code ++ merges, last, by rw [body, split, append_assoc], isLast, ?_⟩
  intro i hi
  rcases mem_append.1 hi with inCode | inMerges
  · exact (Bool.or_eq_false_iff.1 (straight i inCode)).1
  · exact others i inMerges

end Junction.Outlines

variable {f : Function}

namespace Body

variable {body : Body}

theorem Valid.label_blocks (h : body.Valid) : body.blocks.map Block.label = body.labels := by
  rw [← h.labels_outline, ← forall₂_eq_eq_eq, forall₂_map_left_iff, forall₂_map_right_iff]
  exact h.outlined.flip.imp fun _ _ outlines => outlines.label

theorem Valid.exists_outlines (h : body.Valid) {b : Block} (hb : b ∈ body.blocks) :
    ∃ j ∈ body.outline, j.Outlines b := by
  obtain ⟨n, hn, rfl⟩ := getElem_of_mem hb
  have bound : n < body.outline.length := h.outlined.length_eq ▸ hn
  exact ⟨_, getElem_mem bound, forall₂_iff_get.1 h.outlined |>.2 n bound hn⟩

theorem Valid.wellFormed (h : body.Valid) (distinct : body.labels.Nodup)
    (blocks : f.blocks = body.blocks) : f.WellFormed := by
  have labels : f.labels = body.labels := by rw [Function.labels, blocks, h.label_blocks]
  constructor
  case distinct => exact labels ▸ distinct
  case terminated =>
    intro b hb
    obtain ⟨j, hj, outlines⟩ := h.exists_outlines (blocks ▸ hb)
    exact outlines.terminated
  case named =>
    intro b hb x hx
    obtain ⟨j, hj, outlines⟩ := h.exists_outlines (blocks ▸ hb)
    rw [Block.names, outlines.outline] at hx
    rw [labels]
    exact mem_cons_of_mem _ (h.names x (mem_flatMap.2 ⟨j, hj, hx⟩))
  case front =>
    have second := h.label_blocks
    rw [Body.blocks, map_cons, Body.labels, List.cons.injEq] at second
    obtain ⟨b, rest, code, label, -⟩ := map_eq_cons_iff.1 second.2
    exact ⟨_, b, rest, body.vars, by rw [blocks, Body.blocks, code], by rw [label], h.vars⟩
  case entry =>
    intro first hfirst b hb hx
    rw [blocks] at hfirst
    obtain rfl : { label := body.front, body := body.vars ++ [.goto body.code] } = first :=
      Option.some.inj hfirst
    obtain ⟨j, hj, outlines⟩ := h.exists_outlines (blocks ▸ hb)
    rw [outlines.targets] at hx
    have inner := h.names _ (mem_flatMap.2 ⟨j, hj, targets_subset_names hx⟩)
    exact (nodup_cons.1 distinct).1 inner

end Body

theorem Builder.Laid.exists_body {b : Builder} (h : b.Laid bodies)
    (hf : f ∈ b.output.functions) : ∃ body ∈ bodies, f.blocks = body.blocks := by
  have blocks : f.blocks ∈ bodies.map Body.blocks := h.functions ▸ mem_map_of_mem hf
  obtain ⟨body, hbody, eq⟩ := mem_map.1 blocks
  exact ⟨body, hbody, eq.symm⟩

theorem Builder.Laid.nodup {b : Builder} (h : b.Laid bodies) {body : Body}
    (hbody : body ∈ bodies) : body.labels.Nodup :=
  (nodup_flatMap.1 h.labels.1).1 body hbody

namespace Program

variable {p : Program} {o : Options} {order : SetOrder} {out : Output} {f : Function}

theorem exists_body_of_generate (h : p.generate o order = .ok out) (hf : f ∈ out.shader.functions) :
    ∃ body : Body, body.Valid ∧ body.labels.Nodup ∧ f.blocks = body.blocks := by
  obtain ⟨s, ends, shader⟩ := exists_endsIn h
  obtain ⟨bodies, laid⟩ := ends.laid
  rw [shader, Builder.functions_finish] at hf
  obtain ⟨body, hbody, blocks⟩ := laid.builder.exists_body hf
  exact ⟨body, laid.builder.valid body hbody, laid.builder.nodup hbody, blocks⟩

/-- The block graphs of a module that has been made are well formed. -/
theorem wellFormed_of_generate (h : p.generate o order = .ok out) (hf : f ∈ out.shader.functions) :
    f.WellFormed := by
  obtain ⟨body, valid, distinct, blocks⟩ := exists_body_of_generate h hf
  exact valid.wellFormed distinct blocks

/-- Loops with jumps in a selection and in a switch, and with code that cannot be reached. -/
def tangled : Program :=
  let void : Info := { type := .void }
  let yes : Node := .constant { type := .bool } (.bool true)
  let one : Node := .constant { type := .int 32 } (.int 1)
  let jump (kind : Jump) : Node := .jump void kind none
  { functions := [{ name := "main", returnType := .void, body := [jump .demote,
      .loop void (some yes) (some (.sequence void [
        .select void yes (some (jump .leave)) none false {},
        .switch void one [jump (.caseLabel 1), jump .next, jump .defaultLabel, jump .kill] {},
        .select void yes (some (jump .ret)) (some (jump .kill)) false {}])) none true {},
      .loop void (some yes) (some (jump .next)) none false {}] }] }

theorem exists_generate_tangled :
    ∃ out f, tangled.generate {} = .ok out ∧ f ∈ out.shader.functions := by
  have made : (tangled.generate {}).toOption.any (fun out => out.shader.functions ≠ []) := by
    decide +kernel
  obtain ⟨out, h, some⟩ := exists_ok_of_any made
  obtain ⟨f, hf⟩ := exists_mem_of_ne_nil _ (of_decide_eq_true some)
  exact ⟨out, f, h, hf⟩

theorem wellFormed_of_generate_tangled :
    ∃ out f, tangled.generate {} = .ok out ∧ f ∈ out.shader.functions ∧ f.WellFormed := by
  obtain ⟨out, f, h, hf⟩ := exists_generate_tangled
  exact ⟨out, f, h, hf, wellFormed_of_generate h hf⟩

end Program

end ShaderGen
