import Mathlib.Data.List.Chain
import ShaderGen.Proofs.Control.Behaviour
import ShaderGen.Proofs.Control.Structured

/-!
# Where logical operators join

A logical operator that may skip its right operand ends in a block that begins by joining the values
of both operands. That block follows those of the right operand, which follow the one that asks for
the left value, and nothing else leads to it (`Joint.Exact`). So along every trace it takes the left
value if the right operand has been skipped, and else the value that has been evaluated
(`Joint.Decides`).
-/

namespace ShaderGen

open List

variable {ending : List Instruction} {b : Block} {before : List Block} {labels : List Ident}
  {valid : Prop}

/-! ## Drafts that go on -/

theorem Draft.Extends.exists_blocks {d e : Draft}
    (h : d.Extends valid labels e) : ∃ inner, e.blocks = d.blocks ++ inner := by
  induction h with
  | refl => exact ⟨[], by simp⟩
  | push _ _ ih => exact ih
  | @move d e _ ending _ _ _ _ ih =>
    obtain ⟨inner, split⟩ := ih
    exact ⟨inner ++ [⟨e.label, e.body ++ ending⟩], by simp [Draft.move, close,
      Written.begin, split]⟩
  | @join d e g left right merge isAnd _ _ _ _ _ ih ih' =>
    obtain ⟨inner, split⟩ := ih
    obtain ⟨inner', split'⟩ := ih'
    exact ⟨inner ++ ⟨e.label, e.body ++ [.selecting merge 0, logicalFork left isAnd right merge]⟩ ::
      inner' ++ [⟨g.label, g.body ++ [.goto merge]⟩], by
        simp [Draft.push, Draft.move, close, Written.begin, split', split]⟩

/-- The blocks of a draft stay, and the next one is that which has taken instructions. -/
theorem Draft.Extends.blocks {d e : Draft}
    (h : d.Extends valid labels e) : ∃ inner, e.blocks = d.blocks ++ inner ∧
      (inner.map Block.label ++ [e.label]).head? = some d.label := by
  obtain ⟨inner, split⟩ := h.exists_blocks
  refine ⟨inner, split, ?_⟩
  have labels := h.labels_eq
  simp only [all, split, map_append, append_assoc, append_cancel_left_eq] at labels
  simp_all

/-! ## Joints -/

/-- The parts of a logical operator: the blocks in front of it, the block that asks for the left
value, and the blocks of the right operand, the last of which goes on after it. -/
structure Joint where
  front : List Block
  fork : Block
  inner : List Block
  last : Block
  left : Ident
  isAnd : Bool
  /-- Where the right operand begins. -/
  right : Ident
  value : Ident

/-- The blocks of the right operand. -/
def Joint.operand (g : Joint) : List Block := g.inner ++ [g.last]

/-- The instruction is the first one of a block, behind the given ones, and joins the values of a
logical operator. -/
structure Joint.Joins (g : Joint) (before : List Block) (b : Block) (phi : Instruction) : Prop where
  split : before = g.front ++ g.fork :: g.operand
  asks : ∃ code,
    g.fork.body = code ++ [.selecting b.label 0, logicalFork g.left g.isAnd g.right b.label]
  starts : (g.operand.map Block.label).head? = some g.right
  goes : ∃ code, g.last.body = code ++ [.goto b.label]
  first : b.body.head? = some phi
  incoming : phi.incoming = [(g.left, g.fork.label), (g.value, g.last.label)]

/-- Whatever joins values in a block behind the given ones is a logical operator. -/
def Block.Joined (before : List Block) (b : Block) : Prop :=
  ∀ i ∈ b.body, i.op = .phi → ∃ g : Joint, g.Joins before b i

/-- Whatever joins values in the blocks is a logical operator. -/
def Joined (blocks : List Block) : Prop :=
  ∀ before b after, blocks = before ++ b :: after → b.Joined before

theorem joined_concat {blocks : List Block} (h : Joined blocks) (last : b.Joined blocks) :
    Joined (blocks ++ [b]) := by
  intro before c after split
  rcases eq_nil_or_concat after with rfl | ⟨after, d, rfl⟩
  · obtain ⟨rfl, same⟩ := append_inj' split rfl
    exact singleton_inj.1 same ▸ last
  · rw [concat_eq_append, ← cons_append, ← append_assoc] at split
    exact h before c after (append_inj' split rfl).1

theorem Block.Joined.append {label : Ident} {body code : List Instruction}
    (h : Block.Joined before ⟨label, body⟩) (plain : ∀ i ∈ code, i.op ≠ .phi) :
    Block.Joined before ⟨label, body ++ code⟩ := by
  intro i hi isPhi
  rcases mem_append.1 hi with hi | hi
  · obtain ⟨g, joins⟩ := h i hi isPhi
    have first : body.head? = some i := joins.first
    exact ⟨g, { joins with first := by simp [head?_append, first] }⟩
  · exact absurd isPhi (plain i hi)

theorem Block.joined_nil (before : List Block) (label : Ident) : Block.Joined before ⟨label, []⟩ :=
  fun _ hi => by cases hi

/-- Whatever joins values in a draft is a logical operator. -/
structure Draft.Joined (d : Draft) : Prop where
  blocks : ShaderGen.Joined d.blocks
  body : Block.Joined d.blocks ⟨d.label, d.body⟩

theorem Ending.ne_phi (h : Ending ending) : ∀ i ∈ ending, i.op ≠ .phi := by
  intro i hi isPhi
  have flow := h.isFlow i hi
  rw [isPhi] at flow
  cases flow

theorem Draft.Joined.close {d : Draft} (h : d.Joined) (ends : Ending ending) :
    ShaderGen.Joined (d.close ending).blocks :=
  joined_concat h.blocks (h.body.append ends.ne_phi)

theorem Draft.Extends.joined {d e : Draft} (h : d.Extends True labels e)
    (joined : d.Joined) : e.Joined := by
  induction h with
  | refl => exact joined
  | push _ plain ih => exact ⟨(ih joined).blocks, (ih joined).body.append (plain trivial)⟩
  | move _ ends label live ih => exact ⟨(ih joined).close (ends trivial), Block.joined_nil _ label⟩
  | @join d e g left right merge isAnd _ _ _ inner v ih ih' =>
    have earlier : (e.move [.selecting merge 0, logicalFork left isAnd right merge]
      right true).Joined :=
      ⟨(ih joined).close (ending_logical _ _ _ _ _ _), Block.joined_nil _ right⟩
    refine ⟨(ih' earlier).close (.goto merge), fun i hi _ => ?_⟩
    obtain rfl := mem_singleton.1 hi
    obtain ⟨blocks, split, first⟩ := inner.blocks
    refine ⟨⟨e.blocks,
      ⟨e.label, e.body ++ [.selecting merge 0, logicalFork left isAnd right merge]⟩,
      blocks, ⟨g.label, g.body ++ [.goto merge]⟩, left, isAnd, right, v.value⟩, ?_,
      ⟨e.body, rfl⟩, ?_, ⟨g.body, rfl⟩, rfl, rfl⟩
    · simp [Draft.push, Draft.move, close, Written.begin, Joint.operand, split]
    · simpa [Joint.operand] using first

theorem Body.Valid.joined {body : Body} (h : body.Valid) : Joined body.blocks := by
  have start : Draft.Joined ⟨⟨[], body.earlier⟩, body.code, [], true⟩ :=
    ⟨fun _ _ _ split => by simp at split, Block.joined_nil _ _⟩
  have code := (body.piece.extends_emit (fun _ => h.piece) (.refl _)).joined start
  have blocks := code.close h.ending_last
  intro before b after split i hi isPhi
  cases before with
  | nil =>
    obtain ⟨rfl, -⟩ := List.cons.inj split
    rcases mem_append.1 hi with hi | hi
    · simp [(h.vars i hi).1] at isPhi
    · exact absurd isPhi (Ending.ne_phi (.goto _) i hi)
  | cons c before =>
    obtain ⟨rfl, rest⟩ := List.cons.inj split
    obtain ⟨g, joins⟩ := blocks before b after rest i hi isPhi
    exact ⟨{ g with front := _ :: g.front }, { joins with split := by rw [joins.split]; rfl }⟩

/-! ## Edges of joints -/

/-- A joint of a function: the values that are joined come from all of the blocks that lead to the
joining one, and the right operand is entered where it begins. -/
structure Joint.Exact (g : Joint) (f : Function) (b : Block) (phi : Instruction) : Prop where
  blocks : ∃ after, f.blocks = g.front ++ g.fork :: (g.operand ++ b :: after)
  first : b.body.head? = some phi
  asks : ∃ code, (∀ i ∈ code, i.op.isFlow = false) ∧
    g.fork.body = code ++ [.selecting b.label 0, logicalFork g.left g.isAnd g.right b.label]
  starts : (g.operand.map Block.label).head? = some g.right
  incoming : phi.incoming = [(g.left, g.fork.label), (g.value, g.last.label)]
  distinct : g.fork.label ≠ g.last.label
  edges : ∀ c ∈ f.blocks, b.label ∈ c.targets ↔ c.label ∈ phi.incoming.map Prod.snd
  entry : ∀ c ∈ f.blocks, ∀ x ∈ g.operand.map Block.label, x ∈ c.targets →
    c ∈ g.operand ∨ c = g.fork ∧ x = g.right

theorem Ending.length_le (h : Ending ending) : ending.length ≤ 2 := by
  cases h <;> simp

namespace Body.Valid

variable {body : Body} {after : List Block}

theorem straight_of_asks (h : body.Valid) {c : Block} (hc : c ∈ body.blocks)
    {code : List Instruction} {m x y z : Ident} {isAnd : Bool}
    (asks : c.body = code ++ [.selecting m 0, logicalFork x isAnd y z]) :
    (∀ i ∈ code, i.op.isFlow = false) ∧
      c.outline.ending = [.selecting m 0, logicalFork x isAnd y z] := by
  obtain ⟨j, hj, outlines⟩ := h.exists_outlines hc
  have short := outlines.ending.length_le
  have kept := filter_eq_self.2 (ending_logical m 0 x isAnd y z).isFlow
  rw [← outlines.outline, Block.outline, asks, filter_append, kept] at short
  have straight : ∀ i ∈ code, i.op.isFlow = false := by simpa using short
  refine ⟨straight, ?_⟩
  rw [Block.outline, asks, filter_append, kept,
    filter_eq_nil_iff.2 (by simpa using straight), nil_append]

theorem skipped (h : body.Valid) (distinct : body.labels.Nodup) {f : Function}
    (blocks : f.blocks = body.blocks) {phi : Instruction}
    (split : f.blocks = before ++ b :: after) {g : Joint} (joins : g.Joins before b phi) :
    Skipped (g.front.map Block.outline) (g.inner.map Block.outline) g.last.outline
      ((b :: after).map Block.outline) b.label := by
  obtain ⟨rfl, ⟨code, asks⟩, -⟩ := joins
  have ending := (h.straight_of_asks (blocks ▸ split ▸ by simp) asks).2
  have outline : body.outline = g.front.map Block.outline ++ g.fork.outline ::
      (g.inner.map Block.outline ++ [g.last.outline] ++ b.outline :: after.map Block.outline) := by
    rw [← h.function_outline blocks, Function.outline, split]
    simp [Joint.operand]
  have orderly := h.orderly distinct _ _ _ outline
  rw [nil_append, append_nil] at orderly
  obtain ⟨inner, last, rest, eq, skipped⟩ := orderly.guard _ _ _ _ _ ending
  -- Labels differ, so the block after the operand is the one that the guard leads to.
  obtain ⟨r, rest, rfl, hr⟩ : ∃ r rs, rest = r :: rs ∧ r.label = b.label := by
    cases rest with
    | nil => simpa [Starts] using skipped.behind
    | cons r rs => exact ⟨r, rs, rfl, by simpa [Starts] using skipped.behind⟩
  have nodup := h.labels_outline ▸ distinct
  rw [outline] at nodup
  have apart : ∀ k ∈ g.inner.map Block.outline ++ [g.last.outline] ++ after.map Block.outline,
      k.label ≠ b.label := by
    intro k hk same
    have hb : b.outline.label = b.label := rfl
    grind
  rw [append_cons inner, append_cons_inj_of_notMem (by grind) (by grind)] at eq
  obtain ⟨same, rfl, rfl⟩ := eq
  obtain ⟨rfl, single⟩ := append_inj' same rfl
  exact singleton_inj.1 single ▸ skipped

theorem exact (h : body.Valid) (distinct : body.labels.Nodup) {f : Function}
    (blocks : f.blocks = body.blocks) {phi : Instruction}
    (split : f.blocks = before ++ b :: after) {g : Joint} (joins : g.Joins before b phi) :
    g.Exact f b phi := by
  have skipped := h.skipped distinct blocks split joins
  obtain ⟨rfl, ⟨code, asks⟩, starts, ⟨code', goes⟩, first, incoming⟩ := joins
  have labels : f.labels.Nodup := by rwa [Function.labels, blocks, h.label_blocks]
  have targets : ∀ c ∈ f.blocks, c.outline.targets = c.targets := by
    intro c hc
    obtain ⟨j, hj, outlines⟩ := h.exists_outlines (blocks ▸ hc)
    rw [outlines.outline, outlines.targets]
  obtain ⟨straight, ending⟩ := h.straight_of_asks (blocks ▸ split ▸ by simp) asks
  have leads : ∀ c ∈ f.blocks, ∀ x ∈ c.targets, ∀ bs : List Block, c ∈ bs →
      x ∈ targetsOf (bs.map Block.outline) := fun c hc x hx bs hbs =>
    mem_flatMap.2 ⟨_, mem_map_of_mem hbs, targets c hc ▸ hx⟩
  have cases : ∀ c ∈ f.blocks, c ∈ g.front ∨ c = g.fork ∨ c ∈ g.inner ∨ c = g.last ∨
    c ∈ b :: after := by
    simp [split, Joint.operand]
  have fork : ∀ x, x ∈ g.fork.targets ↔ x = g.right ∨ x = b.label := by
    intro x
    rw [← targets _ (split ▸ by simp), Junction.targets, ending]
    exact (Junction.mem_targets_logical : x ∈ (Junction.mk 0 _).targets ↔ _)
  constructor
  case blocks => exact ⟨after, by rw [split]; simp⟩
  case first => exact first
  case asks => exact ⟨code, straight, asks⟩
  case starts => exact starts
  case incoming => exact incoming
  case distinct =>
    rw [Function.labels, split] at labels
    grind [Joint.operand]
  case edges =>
    intro c hc
    rw [incoming]
    refine ⟨fun hb => ?_, fun same => ?_⟩
    · have exit := skipped.exit
      simp only [targetsOf_append, mem_append, not_or] at exit
      rcases cases c hc with hx | rfl | hx | rfl | hx
      · exact absurd (leads c hc _ hb _ hx) exit.1.1
      · simp
      · exact absurd (leads c hc _ hb _ hx) exit.1.2
      · simp
      · exact absurd (leads c hc _ hb _ hx) exit.2
    · have members : g.fork ∈ f.blocks ∧ g.last ∈ f.blocks := by simp [split, Joint.operand]
      rcases mem_pair.1 same with same | same
      · obtain rfl := inj_on_of_nodup_map labels hc members.1 same
        exact (fork _).2 (.inr rfl)
      · obtain rfl := inj_on_of_nodup_map labels hc members.2 same
        rw [Block.targets, goes]
        simp [Instruction.targets, Instruction.goto, Instruction.ids, Operand.ids]
  case entry =>
    intro c hc x hx leadsIn
    have inside : x ∉ targetsOf (g.front.map Block.outline ++ (b :: after).map Block.outline) := by
      obtain ⟨k, hk, rfl⟩ := mem_map.1 hx
      rcases mem_append.1 hk with hk | hk
      · exact skipped.entry k.outline (mem_append_left _ (mem_map_of_mem hk))
      · obtain rfl := mem_singleton.1 hk
        exact skipped.entry g.last.outline (by simp)
    rw [targetsOf_append, mem_append, not_or] at inside
    have other : x ≠ b.label := by
      rw [Function.labels, split] at labels
      grind
    rcases cases c hc with front | rfl | inner | rfl | behind
    · exact absurd (leads c hc _ leadsIn _ front) inside.1
    · exact .inr ⟨rfl, ((fork x).1 leadsIn).resolve_right other⟩
    · exact .inl (mem_append_left _ inner)
    · exact .inl (by simp [Joint.operand])
    · exact absurd (leads c hc _ leadsIn _ behind) inside.2

end Body.Valid

/-! ## Traces -/

/-- Control comes to a block when so many questions have been answered. -/
structure Visit where
  label : Ident
  used : Nat

/-- What control does in the block that it has come to. -/
def Function.turn (f : Function) (choose : Nat → Nat) (v : Visit) : Turn :=
  ShaderGen.turn choose v.used (codeAt f.blocks v.label)

/-- Control goes from one block to another one. -/
def Function.Passes (f : Function) (choose : Nat → Nat) (v w : Visit) : Prop :=
  (f.turn choose v).target = some w.label ∧ (f.turn choose v).used = w.used

/-- The blocks that control comes to, from the first one of a function on. -/
structure Function.Trace (f : Function) (choose : Nat → Nat) (visits : List Visit) : Prop where
  first : visits.head?.map Visit.label = f.blocks.head?.map Block.label
  chain : visits.IsChain (f.Passes choose)

/-- The value that a joining instruction takes if control has come from the given block. -/
def Instruction.yields (i : Instruction) (x : Ident) : Option Ident :=
  (i.incoming.find? fun q => q.2 == x).map Prod.fst

/-- The answer to the first question after the visit, which asks for the left value, requires the
right operand. -/
def Joint.requires (g : Joint) (choose : Nat → Nat) (v : Visit) : Bool :=
  (choose v.used != 0) == g.isAnd

/-- The right operand has been required, and control has not left it since. -/
def Joint.Evaluates (g : Joint) (choose : Nat → Nat) (visits : List Visit) : Prop :=
  ∃ before v inside, visits = before ++ v :: inside ∧ v.label = g.fork.label ∧ g.requires choose v ∧
    inside ≠ [] ∧ ∀ w ∈ inside, w.label ∈ g.operand.map Block.label

/-- Along every trace, the right operand is evaluated if the left value requires it and only then,
and the value that is taken is the left one if the right operand has been skipped, or else the right
one. -/
structure Joint.Decides (g : Joint) (f : Function) (b : Block) (phi : Instruction) : Prop where
  asks : ∀ choose v w, v.label = g.fork.label → f.Passes choose v w →
    (f.turn choose v).steps.getLast? = some (.asked g.left) ∧
      w.label = if g.requires choose v then g.right else b.label
  enters : ∀ choose visits v, f.Trace choose (visits ++ [v]) →
    v.label ∈ g.operand.map Block.label → g.Evaluates choose (visits ++ [v])
  yields : ∀ choose visits v w, f.Trace choose (visits ++ [v] ++ [w]) → w.label = b.label →
    phi.yields v.label = some g.left ∧ v.label = g.fork.label ∧ g.requires choose v = false ∨
      phi.yields v.label = some g.value ∧ g.Evaluates choose (visits ++ [v])

section Turn

variable {choose : Nat → Nat} {used : Nat} {code : List Instruction} {t : Ident}

theorem turn_guard (straight : ∀ i ∈ code, i.op.isFlow = false) (left right m : Ident)
    (isAnd : Bool) : turn choose used (code ++ [.selecting m 0, logicalFork left isAnd right m]) =
      ⟨code.map .did ++ [.asked left], used + 1,
        some (if (choose used != 0) == isAnd then right else m)⟩ := by
  induction code with
  | nil =>
    rw [nil_append, turn_merge rfl]
    by_cases zero : choose used = 0 <;> cases isAnd <;>
      simp [turn, logicalFork, Instruction.fork, zero]
  | cons i code ih =>
    rw [cons_append, turn_straight (straight i mem_cons_self),
      ih fun k hk => straight k (mem_cons_of_mem i hk)]
    rfl

theorem mem_of_caseTarget {word : Nat} {cases : List Operand}
    (h : caseTarget word cases = some t) : t ∈ Operand.ids cases := by
  have later : ∀ (o : Operand) (os : List Operand), t ∈ Operand.ids os →
    t ∈ Operand.ids (o :: os) :=
    fun o os ht => by
      rw [← singleton_append, Operand.ids_append]
      exact mem_append_right _ ht
  fun_induction caseTarget word cases with
  | case1 => exact later _ _ (by simp [Option.some.inj h])
  | case2 _ x rest _ ih => exact later _ _ (mem_cons_of_mem x (ih h))
  | case3 => cases h

theorem mem_of_turn (h : (turn choose used code).target = some t) :
    t ∈ code.flatMap Instruction.targets := by
  induction code with
  | nil => cases h
  | cons i code ih =>
    rw [flatMap_cons, mem_append]
    rw [turn] at h
    split at h
    · rename_i x op operands
      left
      simpa [Instruction.targets, op, Instruction.ids, operands, eq_comm] using h
    · rename_i c x y op operands
      left
      simp only [Instruction.targets, op, Instruction.ids, operands, Operand.ids_ref,
        Operand.ids_nil]
      grind
    · rename_i c default cases op operands
      left
      simp only [Instruction.targets, op, Instruction.ids, operands, Operand.ids_ref]
      cases found : caseTarget (choose used) cases with
      | none => simp_all
      | some x =>
        have := mem_of_caseTarget found
        simp_all
    · right
      split at h
      · exact ih h
      · split at h
        · cases h
        · exact ih h

end Turn

theorem Function.Passes.exists_block {f : Function} {choose : Nat → Nat} {v w : Visit}
    (h : f.Passes choose v w) : ∃ c ∈ f.blocks, c.label = v.label ∧ w.label ∈ c.targets := by
  have target := mem_of_turn h.1
  rw [codeAt] at target
  cases found : f.blocks.find? fun b => b.label == v.label with
  | none => simp [found] at target
  | some c =>
    rw [found] at target
    exact ⟨c, mem_of_find?_eq_some found, by simpa using find?_some found, target⟩

namespace Joint.Exact

variable {g : Joint} {f : Function} {b : Block} {phi : Instruction} {choose : Nat → Nat}
  {v w : Visit}
  {visits : List Visit}

theorem decided (h : g.Exact f b phi) (distinct : f.labels.Nodup) (here : v.label = g.fork.label)
    (leads : f.Passes choose v w) : (f.turn choose v).steps.getLast? = some (.asked g.left) ∧
      w.label = if g.requires choose v then g.right else b.label := by
  obtain ⟨code, straight, asks⟩ := h.asks
  obtain ⟨after, blocks⟩ := h.blocks
  have body : codeAt f.blocks v.label = g.fork.body :=
    here ▸ codeAt_of_mem distinct (blocks ▸ by simp)
  have target := leads.1
  rw [Function.turn, body, asks, turn_guard straight] at target ⊢
  exact ⟨by simp, (Option.some.inj target).symm⟩

theorem apart (h : g.Exact f b phi) (distinct : f.labels.Nodup) {x : Ident}
    (hx : x ∈ g.operand.map Block.label) :
    x ≠ b.label ∧ f.blocks.head?.map Block.label ≠ some x := by
  obtain ⟨after, blocks⟩ := h.blocks
  rw [Function.labels, blocks] at distinct
  rw [blocks]
  cases front : g.front <;> grind

theorem enters (h : g.Exact f b phi) (distinct : f.labels.Nodup)
    (trace : f.Trace choose (visits ++ [v])) (inside : v.label ∈ g.operand.map Block.label) :
    g.Evaluates choose (visits ++ [v]) := by
  induction visits using reverseRecOn generalizing v with
  | nil => exact absurd trace.first.symm (h.apart distinct inside).2
  | append_singleton visits u ih =>
    obtain ⟨earlier, -, leads⟩ := isChain_append.1 trace.chain
    have leads : f.Passes choose u v := leads u (by simp) v (by simp)
    obtain ⟨c, hc, label, target⟩ := leads.exists_block
    rcases h.entry c hc v.label inside target with within | ⟨rfl, start⟩
    · obtain ⟨before, x, inner, split, fork, required, -, all⟩ :=
        ih ⟨by simpa using trace.first, earlier⟩ (label ▸ mem_map_of_mem within)
      refine ⟨before, x, inner ++ [v], by rw [split]; simp, fork, required, by simp, fun y hy => ?_⟩
      rcases mem_append.1 hy with hy | hy
      · exact all y hy
      · exact mem_singleton.1 hy ▸ inside
    · have decided := (h.decided distinct label.symm leads).2
      have required : g.requires choose u := by
        by_contra skipped
        rw [if_neg skipped] at decided
        exact (h.apart distinct inside).1 decided
      exact ⟨visits, u, [v], by simp, label.symm, required, by simp, by simpa using inside⟩

theorem yields (h : g.Exact f b phi) (distinct : f.labels.Nodup)
    (trace : f.Trace choose (visits ++ [v] ++ [w])) (here : w.label = b.label) :
    phi.yields v.label = some g.left ∧ v.label = g.fork.label ∧ g.requires choose v = false ∨
      phi.yields v.label = some g.value ∧ g.Evaluates choose (visits ++ [v]) := by
  obtain ⟨earlier, -, leads⟩ := isChain_append.1 trace.chain
  have leads : f.Passes choose v w := leads v (by simp) w (by simp)
  obtain ⟨c, hc, label, target⟩ := leads.exists_block
  have parent := (h.edges c hc).1 (here ▸ target)
  rw [label] at parent
  rw [Instruction.yields]
  rw [h.incoming] at parent ⊢
  rcases mem_pair.1 parent with fork | last
  · refine .inl ⟨by simp [fork], fork, ?_⟩
    have decided := (h.decided distinct fork leads).2
    by_contra required
    rw [if_pos (by simpa using required), here] at decided
    exact (h.apart distinct (mem_of_mem_head? h.starts)).1 decided.symm
  · refine .inr ⟨by simp [last, h.distinct], ?_⟩
    refine h.enters distinct ⟨by simpa using trace.first, earlier⟩ ?_
    simp [last, Joint.operand]

theorem decides (h : g.Exact f b phi) (distinct : f.labels.Nodup) : g.Decides f b phi where
  asks _ _ _ := h.decided distinct
  enters _ _ _ := h.enters distinct
  yields _ _ _ _ := h.yields distinct

end Joint.Exact

/-! ## Programs -/

namespace Program

/-- The code of a logical operator goes on from the value of its left operand, and the code of the
right one is what it may skip. -/
def Guards (p : Program) (isAnd : Bool) (left right : Node) (outcome : Outcome) (piece : Piece) :
    Prop :=
  ∃ (types first operand : Piece) (a c u : Value) (start merge : Ident), outcome = .value u ∧
    Makes p.target.version (p.condition left) a first.emit ∧
    Makes p.target.version (p.condition right) c operand.emit ∧ types.labels = [] ∧
    piece = .seq types (.seq first (.seq
      (.logical a.id isAnd start merge operand ⟨u.type, u.id, c.id⟩) (.plain [])))

theorem logical_guards (p : Program) (isAnd : Bool) {left right : Node}
    (costly : (right.isSimple && !right.hasSideEffects) = false) :
    Writes p.target.version (Codegen.logical p isAnd ⟨left, Codegen.code p left⟩
      ⟨right, Codegen.code p right⟩) fun _ => p.Guards isAnd left right := by
  have makes (n : Node) := (Codegen.condition_writes p n).inspect
  simp only [Codegen.logical, Deferred.isCheap, costly, Bool.false_eq_true, if_false]
  refine (Writes.bind ((Builder.typeBool_does.up (p := p)).runs.writes_straight (by simp))
    fun type =>
    Writes.bind (makes left) fun a => Writes.bind
      (Codegen.guardedLogical_writes isAnd a type (makes right)) fun u => Writes.pure).mono ?_
  rintro scopes outcome piece ⟨type, types, _, straight, ⟨a, first, _, hfirst, ⟨u, _, _,
    ⟨start, merge, operand, c, hoperand, rfl⟩, ⟨rfl, rfl⟩, rfl⟩, rfl⟩, rfl⟩
  exact ⟨types, first, operand, a, c, u, start, merge, rfl, hfirst.2.1, hoperand.2.1, straight, rfl⟩

/-- Whatever joins values in a module that has been made joins those of a logical operator, takes
them from the blocks that lead to it and no others, and takes the right one on every trace. And
logical operators whose right operands are not cheap join the values of their operands. -/
theorem logical_exact {p : Program} {o : Options} {order : SetOrder} {out : Output}
    (h : p.generate o order = .ok out) :
    (∀ f ∈ out.shader.functions, ∀ b ∈ f.blocks, ∀ i ∈ b.body, i.op = .phi →
      ∃ g : Joint, g.Exact f b i ∧ g.Decides f b i) ∧
    ∀ isAnd info left right, (right.isSimple && !right.hasSideEffects) = false →
      Writes (p.withOptions o).target.version (Codegen.code (p.withOptions o)
        (.binary info (if isAnd then .logicalAnd else .logicalOr) left right))
        fun _ => (p.withOptions o).Guards isAnd left right := by
  refine ⟨fun f hf b hb i hi isPhi => ?_, fun isAnd info left right costly => ?_⟩
  · obtain ⟨body, valid, distinct, blocks⟩ := exists_body_of_generate h hf
    obtain ⟨before, after, split⟩ := append_of_mem hb
    obtain ⟨g, joins⟩ := valid.joined before b after (blocks ▸ split) i hi isPhi
    have exact := valid.exact distinct blocks split joins
    have labels : f.labels.Nodup := by rwa [Function.labels, blocks, valid.label_blocks]
    exact ⟨g, exact, exact.decides labels⟩
  · cases isAnd <;> exact logical_guards _ _ costly

/-- A condition with a logical operator in the right operand of another one. -/
def hedged : Program :=
  let bool : Info := { type := .bool }
  let yes : Node := .constant bool (.bool true)
  let twice : Node := .unary bool .logicalNot (.unary bool .logicalNot yes)
  let inner : Node := .binary bool .logicalOr yes twice
  { functions := [{ name := "main", returnType := .void, body := [
      .select { type := .void } (.binary bool .logicalAnd yes inner) none none false {}] }] }

theorem logical_exact_hedged : ∃ out, hedged.generate {} = .ok out ∧
    ∃ f ∈ out.shader.functions, ∃ b ∈ f.blocks, ∃ i ∈ b.body, i.op = .phi ∧
      ∃ g : Joint, g.Exact f b i ∧ g.Decides f b i := by
  have made : (hedged.generate {}).toOption.any fun out => out.shader.functions.any fun f =>
      f.blocks.any fun b => b.body.any fun i => i.op = .phi := by
    decide +kernel
  obtain ⟨out, h, some⟩ := exists_ok_of_any made
  obtain ⟨f, hf, b, hb, i, hi, isPhi⟩ : ∃ f ∈ out.shader.functions, ∃ b ∈ f.blocks, ∃ i ∈ b.body,
      i.op = .phi := by simpa using some
  exact ⟨out, h, f, hf, b, hb, i, hi, isPhi, (logical_exact h).1 f hf b hb i hi isPhi⟩

end Program

end ShaderGen
