import ShaderGen.Proofs.Control.Piece

/-!
# Where a builder stands in a function

`Builder.At` relates a builder that writes a function to the blocks of the function: one in front
for variables, and a draft of the code. `Builder.Emits` says what a step does to them: it adds
variables and writes a piece, whose labels are all new. Outside of functions a step leaves all
functions alone.
-/

namespace ShaderGen

/-! ## New labels -/

/-- Different ids from a range. -/
def Spread (low high : Ident) (ids : List Ident) : Prop :=
  ids.Nodup ∧ ∀ x ∈ ids, low ≤ x ∧ x < high

namespace Spread

variable {low mid high : Ident} {xs ys : List Ident}

theorem nil : Spread low high [] := ⟨List.nodup_nil, fun _ h => by cases h⟩

theorem mono {low' high' : Ident} (h : Spread low high xs) (hl : low' ≤ low) (hh : high ≤ high') :
    Spread low' high' xs :=
  ⟨h.1, fun x hx => ⟨Nat.le_trans hl (h.2 x hx).1, Nat.lt_of_lt_of_le (h.2 x hx).2 hh⟩⟩

theorem perm (h : Spread low high xs) (p : ys.Perm xs) : Spread low high ys :=
  ⟨p.nodup_iff.2 h.1, fun x hx => h.2 x (p.mem_iff.1 hx)⟩

theorem append (hx : Spread low mid xs) (hy : Spread mid high ys) (hl : low ≤ mid)
    (hh : mid ≤ high) : Spread low high (xs ++ ys) := by
  refine ⟨List.nodup_append.2 ⟨hx.1, hy.1, fun x mx y my => ?_⟩, fun x mx => ?_⟩
  · exact Nat.ne_of_lt (Nat.lt_of_lt_of_le (hx.2 x mx).2 (hy.2 y my).1)
  · rcases List.mem_append.1 mx with mx | mx
    · exact ⟨(hx.2 x mx).1, Nat.lt_of_lt_of_le (hx.2 x mx).2 hh⟩
    · exact ⟨Nat.le_trans hl (hy.2 x mx).1, (hy.2 x mx).2⟩

theorem range (low count : Nat) : Spread low (low + count) (List.range' low count) :=
  ⟨List.nodup_range', fun x hx => by simpa using hx⟩

end Spread

/-! ## Places -/

/-- What of a module of the given version stays the same while one of its functions is written. -/
structure Site (version : Version) where
  before : List Function
  /-- The function, but for its blocks. -/
  head : Function
  /-- The label that the code starts with. -/
  code : Ident

/-- The functions of the module when the one that is written has the given blocks. -/
def Site.functions {v : Version} (site : Site v) (blocks : List Block) : List Function :=
  site.before ++ [{ site.head with blocks }]

/-- A block that goes on. -/
def Block.append (b : Block) (code : List Instruction) : Block := { b with body := b.body ++ code }

@[simp] theorem Block.append_nil (b : Block) : b.append [] = b := by
  simp [Block.append]

@[simp] theorem Block.append_append (b : Block) (code rest : List Instruction) :
    (b.append code).append rest = b.append (code ++ rest) := by
  simp [Block.append]

/-- A variable of a function. -/
def Instruction.IsLocal (i : Instruction) : Prop :=
  i.op = .var ∧ i.operands = [.storage .function]

namespace Builder

/-- The builder writes a function whose blocks are one in front and those of a draft. -/
structure At (b : Builder) {v : Version} (site : Site v) (front : Block) (d : Draft) : Prop where
  version : b.output.version = v
  inFunction : b.inFunction = true
  functions : b.output.functions = site.functions (front :: d.all)
  block : b.block = some (d.blocks.length + 1)
  currentBlock : b.currentBlock = some d.label
  reachable : b.reachable = d.live
  deadBlocks : b.deadBlocks = d.dead
  variablesBlock : b.variablesBlock = some front.label
  codeBlock : b.codeBlock = some site.code

/-- The builder writes a function, but none of its blocks takes instructions. -/
structure Between (b : Builder) {v : Version} (site : Site v) (front : Block) (w : Written) :
    Prop where
  version : b.output.version = v
  inFunction : b.inFunction = true
  functions : b.output.functions = site.functions (front :: w.blocks)
  block : b.block = none
  deadBlocks : b.deadBlocks = w.dead
  variablesBlock : b.variablesBlock = some front.label
  codeBlock : b.codeBlock = some site.code

/-- What a step does to the functions: nothing outside of them, and inside of one it adds variables
and writes a piece that leaves for the given labels at most. -/
structure Emits (exits : List Ident) (b b' : Builder) : Prop where
  bound : b.output.bound ≤ b'.output.bound
  outside : b.inFunction = false → b'.output.functions = b.output.functions ∧ b'.place = b.place
  inside : ∀ {v : Version} (site : Site v) front d, b.At site front d →
  ∃ (vars : List Instruction) (piece : Piece),
    b'.At site (front.append vars) (piece.emit d) ∧ (∀ i ∈ vars, i.IsLocal) ∧ piece.Valid exits ∧
      Spread b.output.bound b'.output.bound piece.labels

variable {b b' b'' : Builder} {v : Version} {site : Site v} {front : Block} {d : Draft}
  {exits : List Ident}

theorem At.same (h : b.At site front d) (functions : b'.output.functions = b.output.functions)
    (place : b'.place = b.place) : b'.At site front d where
  version := (congrArg Place.version place).trans h.version
  inFunction := (congrArg Place.inFunction place).trans h.inFunction
  functions := functions.trans h.functions
  block := (congrArg Place.block place).trans h.block
  currentBlock := (congrArg Place.currentBlock place).trans h.currentBlock
  reachable := (congrArg Place.reachable place).trans h.reachable
  deadBlocks := (congrArg Place.deadBlocks place).trans h.deadBlocks
  variablesBlock := (congrArg Place.variablesBlock place).trans h.variablesBlock
  codeBlock := (congrArg Place.codeBlock place).trans h.codeBlock

theorem Emits.same (functions : b'.output.functions = b.output.functions)
    (place : b'.place = b.place) (bound : b.output.bound ≤ b'.output.bound) : b.Emits exits b' where
  bound := bound
  outside _ := ⟨functions, place⟩
  inside site front d at_ := by
    refine ⟨[], .plain [], ?_, by simp, by simp [Piece.Valid], .nil⟩
    simpa [Piece.emit, Draft.push] using at_.same functions place

theorem Emits.refl (exits : List Ident) (b : Builder) : b.Emits exits b :=
  .same rfl rfl (Nat.le_refl _)

theorem Emits.trans (h : b.Emits exits b') (g : b'.Emits exits b'') : b.Emits exits b'' where
  bound := Nat.le_trans h.bound g.bound
  outside out := by
    obtain ⟨functions, place⟩ := h.outside out
    have out' : b'.inFunction = false := (congrArg Place.inFunction place).trans out
    obtain ⟨functions', place'⟩ := g.outside out'
    exact ⟨functions'.trans functions, place'.trans place⟩
  inside site front d at_ := by
    obtain ⟨vars, first, at1, locals, valid, spread⟩ := h.inside site front d at_
    obtain ⟨vars', second, at2, locals', valid', spread'⟩ := g.inside site _ _ at1
    refine ⟨vars ++ vars', .seq first second, ?_, ?_, ⟨valid, valid'⟩, ?_⟩
    · simpa [Piece.emit] using at2
    · exact fun i hi => (List.mem_append.1 hi).elim (locals i) (locals' i)
    · exact spread.append spread' h.bound g.bound

end Builder

/-- A piece can be put where there are more labels to leave for. -/
theorem Piece.valid_mono :
    (∀ (piece : Piece) (exits exits' : List Ident), (∀ t ∈ exits, t ∈ exits') →
      piece.Valid exits → piece.Valid exits') ∧
    ∀ (arms : Arms) (exits exits' : List Ident), (∀ t ∈ exits, t ∈ exits') →
      arms.Valid exits → arms.Valid exits' := by
  apply Piece.labels.mutual_induct <;> intros <;> grind [Piece.Valid, Arms.Valid]

theorem Builder.Emits.mono {b b' : Builder} {exits exits' : List Ident} (h : b.Emits exits b')
    (sub : ∀ t ∈ exits, t ∈ exits') : b.Emits exits' b' where
  bound := h.bound
  outside := h.outside
  inside site front d at_ := by
    obtain ⟨vars, piece, at', locals, valid, spread⟩ := h.inside site front d at_
    exact ⟨vars, piece, at', locals, Piece.valid_mono.1 piece _ _ sub valid, spread⟩

end ShaderGen
