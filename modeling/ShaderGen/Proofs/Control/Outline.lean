import Mathlib.Data.List.Forall2
import ShaderGen.Proofs.Control.Piece

/-!
# The outline of a piece

What a block is to others is its label and the instructions that end it: one that says where control
goes, and possibly one in front of it that names a merge block. `Piece.outline` lists these for the
blocks that a piece completes, by recursion over the piece. `Piece.outlined_emit` says that the
blocks that a piece writes have that outline, with nothing but straight code in front of their
endings, and nothing at all in front of the ending of a loop header.
-/

namespace ShaderGen

open Piece Instruction

/-! ## Endings -/

/-- Ends a block. -/
def Opcode.isTerminator : Opcode → Bool
  | .branch | .branchConditional | .switch | .unreachable => true
  | op => op.isFinal

/-- Names a merge block. -/
def Opcode.isMerge : Opcode → Bool
  | .selectionMerge | .loopMerge => true
  | _ => false

/-- Has to do with where control goes. -/
def Opcode.isFlow (op : Opcode) : Bool := op.isTerminator || op.isMerge

theorem Opcode.isFlow_of_isControl {op : Opcode} (h : op.isControl = false) :
    op.isFlow = false := by
  cases op <;> first | rfl | cases h

theorem Opcode.isTerminator_of_isFinal {op : Opcode} (h : op.isFinal) : op.isTerminator := by
  cases op <;> first | rfl | cases h

/-- A block but for its code. -/
structure Junction where
  label : Ident
  ending : List Instruction

namespace Junction

/-- Where control goes from the block. -/
def targets (j : Junction) : List Ident := j.ending.flatMap Instruction.targets

/-- Begins the rounds of a loop. -/
def IsHeader (j : Junction) : Prop := ∃ i ∈ j.ending, i.op = .loopMerge

/-- What the block looks like. -/
structure Outlines (j : Junction) (b : Block) : Prop where
  label : b.label = j.label
  body : ∃ code, b.body = code ++ j.ending ∧ (∀ i ∈ code, i.op.isFlow = false) ∧
    (j.IsHeader → code = [])
  ending : Ending j.ending

end Junction

/-- Complete blocks with the given outline. -/
def Written.Outlined (w : Written) (js : List Junction) : Prop :=
  List.Forall₂ Junction.Outlines js w.blocks

/-- Blocks with the given outline, of which the last one has no ending yet. -/
structure Draft.Outlined (d : Draft) (js : List Junction) : Prop where
  blocks : d.toWritten.Outlined js
  body : ∀ i ∈ d.body, i.op.isFlow = false

variable {code : List Instruction}

section Draft

variable {d : Draft} {w : Written} {js : List Junction} {ending : List Instruction}

theorem Draft.Outlined.push (h : d.Outlined js)
    (straight : ∀ i ∈ code, i.op.isFlow = false) : (d.push code).Outlined js where
  blocks := h.blocks
  body i hi := (List.mem_append.1 hi).elim (h.body i) (straight i)

theorem Draft.Outlined.close (h : d.Outlined js) (ends : Ending ending)
    (notHeader : ∀ i ∈ ending, i.op ≠ .loopMerge) :
    (d.close ending).Outlined (js ++ [⟨d.label, ending⟩]) :=
  List.rel_append h.blocks (.cons ⟨rfl, ⟨d.body, rfl, h.body,
    fun ⟨i, hi, isLoop⟩ => absurd isLoop (notHeader i hi)⟩, ends⟩ .nil)

theorem Draft.Outlined.closeEmpty (h : d.Outlined js) (ends : Ending ending) (empty : d.body = []) :
    (d.close ending).Outlined (js ++ [⟨d.label, ending⟩]) :=
  List.rel_append h.blocks (.cons ⟨rfl, ⟨[], by simp [empty], by simp, fun _ => rfl⟩, ends⟩ .nil)

theorem Written.Outlined.begin (h : w.Outlined js) (label : Ident) (live : Bool) :
    (w.begin label live).Outlined js where
  blocks := h
  body i hi := by cases hi

theorem Draft.Outlined.move (h : d.Outlined js) (ends : Ending ending) (label : Ident) (live : Bool)
    (notHeader : ∀ i ∈ ending, i.op ≠ .loopMerge) :
    (d.move ending label live).Outlined (js ++ [⟨d.label, ending⟩]) :=
  (h.close ends notHeader).begin label live

theorem onward_ne_loopMerge (live : Bool) (target : Ident) :
    ∀ i ∈ onward live target, i.op ≠ .loopMerge := by
  cases live <;> simp [onward, goto, nowhere]

theorem Draft.Outlined.go (h : d.Outlined js) (target label : Ident) (live : Bool) :
    (d.move (onward d.live target) label live).Outlined (js ++ [⟨d.label, onward d.live target⟩]) :=
  h.move (ending_onward _ _) label live (onward_ne_loopMerge _ _)

end Draft

/-! ## Outlines -/

namespace Piece

/-- The block that takes instructions after a piece that starts in a given block. -/
def last : Piece → Ident → Ident
  | .plain _, label => label
  | .seq first second, label => second.last (first.last label)
  | .stop _ follow, _ | .jump _ follow, _ => follow
  | .ifThen _ _ _ merge _, _ | .ifElse _ _ _ _ merge _ _ _, _ | .logical _ _ _ merge _ _, _
  | .switch _ _ _ merge _, _ => merge
  | .loop l _ _ _ _, _ | .whileLoop l _ _ _ _ _ _, _ => l.merge

/-- Whether control counts as reachable after a piece. -/
def after : Piece → Bool → Bool
  | .plain _, live => live
  | .seq first second, live => second.after (first.after live)
  | .stop _ _, _ | .jump _ _, _ => false
  | .ifElse _ _ _ _ _ always first second, live =>
    if always then live else first.after live || second.after live
  | .logical _ _ _ _ _ _, _ => true
  | .ifThen _ _ _ _ _, live | .switch _ _ _ _ _, live | .loop _ _ _ _ _, live
  | .whileLoop _ _ _ _ _ _ _, live => live

end Piece

/-- The block, if it counts as unreachable. -/
def deadIf (live : Bool) (label : Ident) : List Ident := if live then [] else [label]

mutual

/-- The blocks of a piece that count as unreachable when they are begun. -/
def Piece.dead : Piece → Bool → List Ident
  | .plain _, _ => []
  | .seq first second, live => first.dead live ++ second.dead (first.after live)
  | .stop _ follow, _ | .jump _ follow, _ => [follow]
  | .ifThen _ _ thenBlock merge body, live =>
    deadIf live thenBlock ++ body.dead live ++ deadIf live merge
  | .ifElse _ _ thenBlock elseBlock merge always first second, live =>
    deadIf live thenBlock ++ first.dead live ++ deadIf live elseBlock ++ second.dead live
      ++ deadIf (if always then live else first.after live || second.after live) merge
  | .logical _ _ _ _ operand _, _ => operand.dead true
  | .switch _ _ _ merge arms, live => arms.dead live ++ deadIf live merge
  | .loop l _ body rest _, live =>
    deadIf live l.header ++ deadIf live l.body ++ body.dead live ++ deadIf live l.next
      ++ rest.dead live ++ deadIf live l.merge
  | .whileLoop l _ testBlock test _ body rest, live =>
    deadIf live l.header ++ deadIf live testBlock ++ test.dead live ++ deadIf live l.body
      ++ body.dead live ++ deadIf live l.next ++ rest.dead live ++ deadIf live l.merge

/-- The blocks of the arms of a switch that count as unreachable when they are begun. -/
def Arms.dead : Arms → Bool → List Ident
  | .nil, _ => []
  | .cons label body rest, live => deadIf live label ++ body.dead live ++ rest.dead live

end

mutual

/-- The outline of the blocks that a piece completes when it starts in a given block. -/
def Piece.outline : Piece → Ident → Bool → List Junction
  | .plain _, _, _ => []
  | .seq first second, label, live =>
    first.outline label live ++ second.outline (first.last label) (first.after live)
  | .stop last _, label, _ => [⟨label, [last]⟩]
  | .jump target _, label, live => [⟨label, onward live target⟩]
  | .ifThen c control thenBlock merge body, label, live =>
    ⟨label, [.selecting merge control, .fork c thenBlock merge]⟩ ::
      (body.outline thenBlock live ++ [⟨body.last thenBlock, onward (body.after live) merge⟩])
  | .ifElse c control thenBlock elseBlock merge _ first second, label, live =>
    ⟨label, [.selecting merge control, .fork c thenBlock elseBlock]⟩ ::
      (first.outline thenBlock live ++ ⟨first.last thenBlock, onward (first.after live) merge⟩ ::
        (second.outline elseBlock live ++
          [⟨second.last elseBlock, onward (second.after live) merge⟩]))
  | .logical left isAnd right merge operand _, label, _ =>
    ⟨label, [.selecting merge 0, logicalFork left isAnd right merge]⟩ ::
      (operand.outline right true ++ [⟨operand.last right, [.goto merge]⟩])
  | .switch selector control targets merge arms, label, live =>
    ⟨label, [.selecting merge control, .choice selector targets]⟩ :: arms.outline merge live
  | .loop l advice body rest again, label, live =>
    ⟨label, onward live l.header⟩ :: ⟨l.header, [.looping l.merge l.next advice, .goto l.body]⟩ ::
      (body.outline l.body live ++ ⟨body.last l.body, onward (body.after live) l.next⟩ ::
        (rest.outline l.next live ++ [⟨rest.last l.next, l.back again⟩]))
  | .whileLoop l advice testBlock test condition body rest, label, live =>
    ⟨label, onward live l.header⟩ ::
    ⟨l.header, [.looping l.merge l.next advice, .goto testBlock]⟩ ::
      (test.outline testBlock live ++ ⟨test.last testBlock, [.fork condition l.body l.merge]⟩ ::
        (body.outline l.body live ++ ⟨body.last l.body, onward (body.after live) l.next⟩ ::
          (rest.outline l.next live ++ [⟨rest.last l.next, l.back none⟩])))

/-- The outline of the arms of a switch. -/
def Arms.outline : Arms → Ident → Bool → List Junction
  | .nil, _, _ => []
  | .cons label body rest, merge, live =>
    body.outline label live ++
      ⟨body.last label, onward (body.after live) (rest.start merge)⟩ :: rest.outline merge live

end

namespace Piece

@[simp] theorem label_emit (piece : Piece) (d : Draft) :
    (piece.emit d).label = piece.last d.label := by
  induction piece using @Piece.rec _ fun _ => True generalizing d
  case seq first second one two => rw [emit, two, one, last]
  all_goals first | rfl | trivial

@[simp] theorem live_emit (piece : Piece) (d : Draft) :
    (piece.emit d).live = piece.after d.live := by
  induction piece using @Piece.rec _ fun _ => True generalizing d
  case seq first second one two => rw [emit, two, one, after]
  case ifElse first second one two => simp [emit, after, Draft.move, Written.begin, one, two]
  all_goals first | rfl | trivial

end Piece

@[simp] theorem deadIf_true (label : Ident) : deadIf true label = [] := rfl

@[simp] theorem Written.live_begin (w : Written) (label : Ident) (live : Bool) :
    (w.begin label live).live = live := rfl

@[simp] theorem Written.label_begin (w : Written) (label : Ident) (live : Bool) :
    (w.begin label live).label = label := rfl

@[simp] theorem Draft.live_move (d : Draft) (ending : List Instruction) (label : Ident)
    (live : Bool) : (d.move ending label live).live = live := rfl

@[simp] theorem Draft.label_move (d : Draft) (ending : List Instruction) (label : Ident)
    (live : Bool) : (d.move ending label live).label = label := rfl

@[simp] theorem Draft.dead_close (d : Draft) (ending : List Instruction) :
    (d.close ending).dead = d.dead := rfl

@[simp] theorem Draft.dead_push (d : Draft) (code : List Instruction) :
    (d.push code).dead = d.dead := rfl

@[simp] theorem Written.dead_begin (w : Written) (label : Ident) (live : Bool) :
    (w.begin label live).dead = w.dead ++ deadIf live label := by
  cases live <;> simp [Written.begin, deadIf]

@[simp] theorem Draft.dead_move (d : Draft) (ending : List Instruction) (label : Ident)
    (live : Bool) : (d.move ending label live).dead = d.dead ++ deadIf live label :=
  Written.dead_begin _ label live

theorem Piece.dead_emit : (∀ (piece : Piece) (d : Draft),
      (piece.emit d).dead = d.dead ++ piece.dead d.live) ∧
    ∀ (arms : Arms) (merge : Ident) (live : Bool) (w : Written),
      (arms.emit merge live w).dead = w.dead ++ arms.dead live := by
  apply Piece.labels.mutual_induct <;> intros <;>
    simp [Piece.emit, Piece.dead, Arms.emit, Arms.dead, deadIf, *]

/-! ## Blocks and their outlines -/

variable {exits : List Ident}

theorem Draft.Outlined.enterLoop {d : Draft} {js : List Junction} (h : d.Outlined js)
    (l : LoopLabels) {advice : List Operand} (advised : Operand.ids advice = []) (start : Ident)
    (live : Bool) : ((d.move (onward d.live l.header) l.header live).move
      [.looping l.merge l.next advice, .goto start] start live).Outlined
      (js ++ [⟨d.label, onward d.live l.header⟩] ++
        [⟨l.header, [.looping l.merge l.next advice, .goto start]⟩]) :=
  ((h.go l.header l.header live).closeEmpty (.loop _ _ _ _ advised) rfl).begin start live

theorem LoopLabels.back_ne_loopMerge (l : LoopLabels) (again : Option Ident) :
    ∀ i ∈ l.back again, i.op ≠ .loopMerge := by
  cases again <;> simp [back, goto, fork]

mutual

theorem Piece.outlined_emit : (piece : Piece) → ∀ (exits : List Ident) (d : Draft)
    (js : List Junction), piece.Valid exits → d.Outlined js →
    (piece.emit d).Outlined (js ++ piece.outline d.label d.live)
  | .plain _ => fun _ _ _ valid h => by
    simpa [emit, outline] using h.push fun i hi => Opcode.isFlow_of_isControl (valid i hi)
  | .seq first second => fun _ _ _ valid h => by
    have both := second.outlined_emit _ _ _ valid.2 (first.outlined_emit _ _ _ valid.1 h)
    simpa [emit, outline] using both
  | .stop last follow => fun _ _ _ valid h => by
    have final : last.op.isFinal := valid
    have notLoop : last.op ≠ .loopMerge := fun isLoop => by simp [isLoop, Opcode.isFinal] at final
    exact h.move (.final final) follow false (by simpa using notLoop)
  | .jump target follow => fun _ _ _ _ h => h.go target follow false
  | .ifThen c control thenBlock merge body => fun _ d _ valid h => by
    have inner := body.outlined_emit _ _ _ valid
      (h.move (.select merge control c thenBlock merge) thenBlock d.live
      (by simp [selecting, fork]))
    simpa [emit, outline] using inner.go merge merge d.live
  | .ifElse c control thenBlock elseBlock merge always first second => fun _ d _ valid h => by
    have one := first.outlined_emit _ _ _ valid.1
      (h.move (.select merge control c thenBlock elseBlock) thenBlock d.live
        (by simp [selecting, fork]))
    have two := second.outlined_emit _ _ _ valid.2 (one.go merge elseBlock d.live)
    simpa [emit, outline] using two.go merge merge _
  | .logical left isAnd right merge operand _ => fun _ _ _ valid h => by
    have inner := operand.outlined_emit _ _ _ valid
      (h.move (ending_logical merge 0 left isAnd right merge) right true
        (by cases isAnd <;> simp [selecting, logicalFork, fork]))
    have joined := inner.move (.goto merge) merge true (by simp [goto])
    simpa [emit, outline] using joined.push (List.forall_mem_singleton.2 rfl)
  | .switch selector control targets merge arms => fun _ d _ valid h => by
    have closed : (d.close [.selecting merge control, .choice selector targets]).Outlined _ :=
      h.close (.switch _ _ _ _) (by simp [selecting, choice])
    have inner := arms.outlined_emit merge d.live _ _ _ valid.2 closed
    simpa [emit, outline] using inner.begin merge d.live
  | .loop l advice body rest again => fun _ d _ valid h => by
    have one := body.outlined_emit _ _ _ valid.2.1 (h.enterLoop l valid.1 l.body d.live)
    have two := rest.outlined_emit _ _ _ valid.2.2 (one.go l.next l.next d.live)
    have three := two.move (l.ending_back again) l.merge d.live (l.back_ne_loopMerge again)
    simpa [emit, outline] using three
  | .whileLoop l advice testBlock test condition body rest => fun _ d _ valid h => by
    have one := test.outlined_emit _ _ _ valid.2.1 (h.enterLoop l valid.1 testBlock d.live)
    have two := body.outlined_emit _ _ _ valid.2.2.1
      (one.move (.test condition l.body l.merge) l.body d.live (by simp [fork]))
    have three := rest.outlined_emit _ _ _ valid.2.2.2 (two.go l.next l.next d.live)
    have four := three.move (l.ending_back none) l.merge d.live (l.back_ne_loopMerge none)
    simpa [emit, outline] using four

theorem Arms.outlined_emit : (arms : Arms) → ∀ (merge : Ident) (live : Bool) (exits : List Ident)
    (w : Written) (js : List Junction), arms.Valid exits → w.Outlined js →
    (arms.emit merge live w).Outlined (js ++ arms.outline merge live)
  | .nil => fun _ _ _ _ _ _ h => by simpa [Arms.emit, Arms.outline] using h
  | .cons label body rest => fun merge live _ _ _ valid h => by
    have one := body.outlined_emit _ _ _ valid.1 (h.begin label live)
    have closed :=
      one.close (ending_onward _ _) (onward_ne_loopMerge (body.after live) (rest.start merge))
    have two := rest.outlined_emit merge live _ _ _ valid.2 closed
    simpa [Arms.emit, Arms.outline] using two

end

/-- The blocks that a piece completes, and the one it leaves open, are the one that it starts in and
those that it begins. -/
theorem Piece.labels_outline {piece : Piece} (valid : piece.Valid exits)
    (label : Ident) (live : Bool) :
    (piece.outline label live).map Junction.label ++ [piece.last label] = label ::
    piece.labels := by
  let d : Draft := ⟨⟨[], []⟩, label, [], live⟩
  have outlined := (piece.outlined_emit exits d [] valid ⟨.nil, by simp [d]⟩).blocks
  have same : (piece.outline label live).map Junction.label = (piece.emit d).blocks.map
    Block.label := by
    rw [← List.forall₂_eq_eq_eq, List.forall₂_map_left_iff, List.forall₂_map_right_iff]
    exact outlined.imp fun _ _ outlines => outlines.label.symm
  have labels := piece.labels_emit d
  simpa [Draft.all, d, same] using labels

end ShaderGen
