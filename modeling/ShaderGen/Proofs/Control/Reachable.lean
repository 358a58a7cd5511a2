import Mathlib.Data.List.Pairwise
import ShaderGen.Proofs.Control.Structured
import ShaderGen.Proofs.Typing.Run

/-!
# What cannot be reached

The builder keeps a flag that says whether control can come to the current block, and ends blocks
with the instruction that must not be executed when the flag is down. The flag is only a guess about
the blocks written so far, but it errs on one side: `Program.unreached_of_generate` says that no
path from the start of a function leads to a block for which it was down, nor to one that ends so.
The proof gives every block of a piece a mark (`Piece.reached`) such that marked blocks lead to
marked blocks only.
-/

namespace ShaderGen

open List Junction

variable {live : Bool} {m target x : Ident} {W : Ident → Prop} {body : Body} {reach : Bool}
  {i : Instruction} {bodies : List Body}

/-! ## Marks -/

/-- Whether control can come to the end of a piece if it can come to its start. -/
def Piece.passes : Piece → Bool → Bool
  | .plain _, reach => reach
  | .seq first second, reach => second.passes (first.passes reach)
  | .stop _ _, _ | .jump _ _, _ => false
  | .ifElse _ _ _ _ _ _ first second, reach => first.passes reach || second.passes reach
  | .ifThen _ _ _ _ _, reach | .logical _ _ _ _ _ _, reach | .switch _ _ _ _ _, reach
  | .loop _ _ _ _ _, reach | .whileLoop _ _ _ _ _ _ _, reach => reach

mutual

/-- The blocks that a piece begins, each with whether control can come to it. -/
def Piece.reached : Piece → Bool → List (Ident × Bool)
  | .plain _, _ => []
  | .seq first second, reach => first.reached reach ++ second.reached (first.passes reach)
  | .stop _ follow, _ | .jump _ follow, _ => [(follow, false)]
  | .ifThen _ _ thenBlock merge body, reach =>
    (thenBlock, reach) :: (body.reached reach ++ [(merge, reach)])
  | .ifElse _ _ thenBlock elseBlock merge _ first second, reach =>
    (thenBlock, reach) :: (first.reached reach ++ (elseBlock, reach) :: (second.reached reach ++
      [(merge, first.passes reach || second.passes reach)]))
  | .logical _ _ right merge operand _, reach =>
    (right, reach) :: (operand.reached reach ++ [(merge, reach)])
  | .switch _ _ _ merge arms, reach => arms.reached reach ++ [(merge, reach)]
  | .loop l _ body rest _, reach =>
    (l.header, reach) :: (l.body, reach) :: (body.reached reach ++ (l.next, reach) ::
      (rest.reached reach ++ [(l.merge, reach)]))
  | .whileLoop l _ testBlock test _ body rest, reach =>
    (l.header, reach) :: (testBlock, reach) :: (test.reached reach ++ (l.body, reach) ::
      (body.reached reach ++ (l.next, reach) :: (rest.reached reach ++ [(l.merge, reach)])))

/-- The blocks of the arms of a switch, each with whether control can come to it. -/
def Arms.reached : Arms → Bool → List (Ident × Bool)
  | .nil, _ => []
  | .cons label body rest, reach => (label, reach) :: (body.reached reach ++ rest.reached reach)

end

theorem Piece.labels_reached : (∀ (piece : Piece) (reach : Bool),
      (piece.reached reach).map Prod.fst = piece.labels) ∧
    ∀ (arms : Arms) (reach : Bool), (arms.reached reach).map Prod.fst = arms.labels := by
  apply Piece.labels.mutual_induct <;> intros <;>
    simp [Piece.reached, Piece.labels, Arms.reached, Arms.labels, *]

namespace Piece

theorem passes_false (piece : Piece) : piece.passes false = false := by
  induction piece using @Piece.rec _ fun _ => True <;> simp_all [passes]

theorem reach_of_passes {piece : Piece} (h : piece.passes reach = true) : reach = true := by
  cases reach with
  | false => rw [passes_false] at h; cases h
  | true => rfl

/-- The flag is down at the end of a piece only where control cannot come. -/
theorem passes_of_after (piece : Piece) (live reach : Bool) (h : live = false → reach = false)
    (down : piece.after live = false) : piece.passes reach = false := by
  induction piece using @Piece.rec _ fun _ => True generalizing live reach
  case ifElse always first second one two =>
    cases always with
    | true => rw [passes, h down, first.passes_false, second.passes_false, Bool.or_false]
    | false =>
      obtain ⟨left, right⟩ := Bool.or_eq_false_iff.1 down
      rw [passes, one live reach h left, two live reach h right, Bool.or_false]
  all_goals grind [passes, Piece.after]

end Piece

/-! ## Marked blocks lead to marked blocks -/

/-- The set has those of the labels that are marked. -/
def Marked (W : Ident → Prop) (marks : List (Ident × Bool)) : Prop :=
  ∀ q ∈ marks, W q.1 ↔ q.2 = true

/-- Control that comes to the block does not come to an end there that it must not come to, and goes
on to labels of the set only. -/
def Junction.Safe (W : Ident → Prop) (j : Junction) : Prop :=
  W j.label → (∀ i ∈ j.ending, i.op ≠ .unreachable) ∧ ∀ x ∈ j.targets, W x

section Safe

variable {W : Ident → Prop} {label : Ident} {k : Nat}

theorem Safe.onward (up : W label → live = true)
    (leads : W label → W target) : Safe W ⟨label, onward live target⟩ := by
  intro comes
  have isLive : live = true := up comes
  subst isLive
  exact ⟨by simp [ShaderGen.onward, Instruction.goto],
    fun x hx => (mem_targets_goto.1 hx) ▸ leads comes⟩

theorem Safe.final (h : i.op.isFinal) : Safe W ⟨label, [i]⟩ := by
  intro _
  refine ⟨fun k hk isNowhere => ?_, fun x hx => ?_⟩
  · rw [mem_singleton.1 hk] at isNowhere
    rw [isNowhere] at h
    cases h
  · have named := targets_subset_names hx
    rw [names_single, Instruction.labelIds_of_isFinal h] at named
    cases named

theorem Safe.goto (leads : W label → W target) : Safe W ⟨label, [.goto target]⟩ :=
  show Safe W ⟨label, ShaderGen.onward true target⟩ from Safe.onward (fun _ => rfl) leads

theorem Safe.fork {c y : Ident} (leads : W label → W x ∧ W y) : Safe W ⟨label, [.fork c x y]⟩ := by
  intro comes
  exact ⟨by simp [Instruction.fork], fun z hz => (mem_targets_fork.1 hz).elim
    (fun eq => eq ▸ (leads comes).1) (fun eq => eq ▸ (leads comes).2)⟩

theorem Safe.select {c y : Ident} (leads : W label → W x ∧ W y) :
    Safe W ⟨label, [.selecting m k, .fork c x y]⟩ := by
  intro comes
  exact ⟨by simp [Instruction.selecting, Instruction.fork],
    fun z hz => (mem_targets_select.1 hz).elim
      (fun eq => eq ▸ (leads comes).1) (fun eq => eq ▸ (leads comes).2)⟩

theorem Safe.logical {merge left right : Ident} {isAnd : Bool}
    (leads : W label → W right ∧ W merge) :
    Safe W ⟨label, [.selecting merge 0, logicalFork left isAnd right merge]⟩ := by
  cases isAnd
  · exact Safe.select fun comes => (leads comes).symm
  · exact Safe.select leads

theorem Safe.switch {selector : Ident} {targets : List Operand}
    (leads : W label → ∀ x ∈ Operand.ids targets, W x) :
    Safe W ⟨label, [.selecting m k, .choice selector targets]⟩ := by
  intro comes
  exact ⟨by simp [Instruction.selecting, Instruction.choice],
    fun x hx => leads comes x (mem_targets_switch.1 hx)⟩

theorem Safe.loop {n start : Ident} {advice : List Operand} (leads : W label → W start) :
    Safe W ⟨label, [.looping m n advice, .goto start]⟩ := by
  intro comes
  exact ⟨by simp [Instruction.looping, Instruction.goto],
    fun x hx => (mem_targets_loop.1 hx) ▸ leads comes⟩

theorem Safe.back {l : LoopLabels} {again : Option Ident}
    (leads : W label → W l.header ∧ W l.merge) : Safe W ⟨label, l.back again⟩ := by
  cases again with
  | none => exact Safe.goto fun comes => (leads comes).1
  | some c => exact Safe.fork leads

theorem Safe.leave {piece : Piece} (flag : live = false → reach = false)
    (last : W (piece.last label) ↔ piece.passes reach = true)
    (leads : piece.passes reach = true → W target) :
    Safe W ⟨piece.last label, ShaderGen.onward (piece.after live) target⟩ := by
  refine Safe.onward (fun comes => ?_) fun comes => leads (last.1 comes)
  rw [← Bool.not_eq_false]
  intro down
  have blocked := piece.passes_of_after live reach flag down
  rw [last.1 comes] at blocked
  cases blocked

end Safe

theorem Piece.marked_last (piece : Piece) (label : Ident) (reach : Bool)
    (start : W label ↔ reach = true)
    (marks : Marked W (piece.reached reach)) : W (piece.last label) ↔
    piece.passes reach = true := by
  induction piece using @Piece.rec _ fun _ => True generalizing label reach
  case plain => exact start
  case seq first second one two =>
    obtain ⟨left, right⟩ := forall_mem_append.1 marks
    exact two _ _ (one label reach start left) right
  case ifElse merge _ first second _ _ =>
    exact marks (merge, first.passes reach || second.passes reach) (by simp [Piece.reached])
  case nil | cons => trivial
  all_goals exact marks (_, _) (by simp [Piece.reached])

/-- What is known about the marks of labels where a piece starts: the flag is not down where control
can come, and if control can come there, it can go where the piece may leave for. -/
structure Lit (W : Ident → Prop) (exits : List Ident) (label : Ident) (live reach : Bool) :
    Prop where
  flag : live = false → reach = false
  start : W label ↔ reach = true
  exits : reach = true → ∀ x ∈ exits, W x

theorem Arms.marked_heads (arms : Arms) (reach : Bool) (marks : Marked W (arms.reached reach)) :
    ∀ x ∈ arms.heads, W x ↔ reach = true := by
  intro x hx
  cases arms with
  | nil => cases hx
  | cons label body rest =>
    simp only [Arms.reached, Marked, forall_mem_cons, forall_mem_append] at marks
    rcases mem_cons.1 hx with rfl | later
    · exact marks.1
    · exact rest.marked_heads reach marks.2.2 x later

theorem Arms.marked_start (arms : Arms) (merge : Ident) (reach : Bool)
    (hmerge : W merge ↔ reach = true) (marks : Marked W (arms.reached reach)) :
    W (arms.start merge) ↔ reach = true := by
  rcases arms.start_mem_heads merge with eq | head
  · rwa [eq]
  · exact arms.marked_heads reach marks _ head

namespace Lit

variable {W : Ident → Prop} {exits : List Ident} {label target : Ident} {live reach : Bool}

theorem up (h : Lit W exits label live reach) (comes : W label) : live = true := by
  cases live with
  | true => rfl
  | false => exact (h.flag rfl).symm.trans (h.start.1 comes)

theorem block (h : Lit W exits label live reach) (mark : W target ↔ reach = true) :
    Lit W exits target live reach :=
  ⟨h.flag, mark, h.exits⟩

theorem exit (h : Lit W exits label live reach) (mark : W target ↔ reach = true) :
    Lit W (target :: exits) label live reach :=
  ⟨h.flag, h.start, fun comes => forall_mem_cons.2 ⟨mark.2 comes, h.exits comes⟩⟩

end Lit

mutual

theorem Piece.safe_outline : (piece : Piece) → ∀ (exits : List Ident)
    (label : Ident) (live reach : Bool), piece.Valid exits → Lit W exits label live reach →
    Marked W (piece.reached reach) → ∀ j ∈ piece.outline label live, j.Safe W
  | .plain _ => fun _ _ _ _ _ _ _ j hj => by cases hj
  | .seq first second => fun exits label live reach valid lit marks => by
    obtain ⟨one, two⟩ := forall_mem_append.1 marks
    have next : Lit W exits (first.last label) (first.after live) (first.passes reach) :=
      ⟨first.passes_of_after live reach lit.flag, first.marked_last label reach lit.start one,
        fun comes => lit.exits (Piece.reach_of_passes comes)⟩
    simp only [Piece.outline, forall_mem_append]
    exact ⟨first.safe_outline exits _ _ _ valid.1 lit one,
      second.safe_outline exits _ _ _ valid.2 next two⟩
  | .stop last follow => fun _ _ _ _ valid _ _ => by
    simpa [Piece.outline] using Safe.final valid
  | .jump target follow => fun exits label live reach valid lit _ => by
    have leads : W label → W target := fun comes => lit.exits (lit.start.1 comes) target valid
    simpa [Piece.outline] using Safe.onward lit.up leads
  | .ifThen c control thenBlock merge body => fun exits label live reach valid lit marks => by
    simp only [Piece.reached, Marked, forall_mem_cons, forall_mem_append] at marks
    obtain ⟨hthen, hbody, hmerge, -⟩ := marks
    have last := body.marked_last thenBlock reach hthen hbody
    simp only [Piece.outline, forall_mem_cons, forall_mem_append]
    refine ⟨Safe.select fun comes => ?_, body.safe_outline exits _ _ _ valid
      (lit.block hthen) hbody,
      Safe.leave lit.flag last fun comes => hmerge.2 (Piece.reach_of_passes comes), by simp⟩
    exact ⟨hthen.2 (lit.start.1 comes), hmerge.2 (lit.start.1 comes)⟩
  | .ifElse c control thenBlock elseBlock merge always first second =>
      fun exits label live reach valid lit marks => by
    simp only [Piece.reached, Marked, forall_mem_cons, forall_mem_append] at marks
    obtain ⟨hthen, hfirst, helse, hsecond, hmerge, -⟩ := marks
    have one := first.marked_last thenBlock reach hthen hfirst
    have two := second.marked_last elseBlock reach helse hsecond
    simp only [Piece.outline, forall_mem_cons, forall_mem_append]
    refine ⟨Safe.select fun comes => ?_,
      first.safe_outline exits _ _ _ valid.1 (lit.block hthen) hfirst,
      Safe.leave lit.flag one fun comes => hmerge.2 (by simp [comes]),
      second.safe_outline exits _ _ _ valid.2 (lit.block helse) hsecond,
      Safe.leave lit.flag two fun comes => hmerge.2 (by simp [comes]), by simp⟩
    exact ⟨hthen.2 (lit.start.1 comes), helse.2 (lit.start.1 comes)⟩
  | .logical left isAnd right merge operand _ => fun exits label live reach valid lit marks => by
    simp only [Piece.reached, Marked, forall_mem_cons, forall_mem_append] at marks
    obtain ⟨hright, hoperand, hmerge, -⟩ := marks
    have last := operand.marked_last right reach hright hoperand
    have inner : Lit W exits right true reach := ⟨by simp, hright, lit.exits⟩
    simp only [Piece.outline, forall_mem_cons, forall_mem_append]
    refine ⟨Safe.logical fun comes => ?_, operand.safe_outline exits _ _ _ valid inner hoperand,
      Safe.goto fun comes => hmerge.2 (Piece.reach_of_passes (last.1 comes)), by simp⟩
    exact ⟨hright.2 (lit.start.1 comes), hmerge.2 (lit.start.1 comes)⟩
  | .switch selector control targets merge arms => fun exits label live reach valid lit marks => by
    simp only [Piece.reached, Marked, forall_mem_cons, forall_mem_append] at marks
    obtain ⟨harms, hmerge, -⟩ := marks
    simp only [Piece.outline, forall_mem_cons]
    refine ⟨Safe.switch fun comes x hx => ?_,
      arms.safe_outline _ _ _ _ _ valid.2 (lit.exit hmerge) hmerge harms⟩
    rcases valid.1 x hx with rfl | head
    · exact hmerge.2 (lit.start.1 comes)
    · exact (arms.marked_heads reach harms x head).2 (lit.start.1 comes)
  | .loop l advice body rest again => fun exits label live reach valid lit marks => by
    simp only [Piece.reached, Marked, forall_mem_cons, forall_mem_append] at marks
    obtain ⟨hheader, hstart, hbody, hnext, hrest, hmerge, -⟩ := marks
    have one := body.marked_last l.body reach hstart hbody
    have two := rest.marked_last l.next reach hnext hrest
    simp only [Piece.outline, forall_mem_cons, forall_mem_append]
    refine ⟨Safe.onward lit.up fun comes => hheader.2 (lit.start.1 comes),
      Safe.loop fun comes => hstart.2 (hheader.1 comes),
      body.safe_outline _ _ _ _ valid.2.1 ((lit.block hstart).exit hnext |>.exit hmerge) hbody,
      Safe.leave lit.flag one fun comes => hnext.2 (Piece.reach_of_passes comes),
      rest.safe_outline exits _ _ _ valid.2.2 (lit.block hnext) hrest, Safe.back fun comes => ?_,
      by simp⟩
    have comes := Piece.reach_of_passes (two.1 comes)
    exact ⟨hheader.2 comes, hmerge.2 comes⟩
  | .whileLoop l advice testBlock test condition body rest =>
      fun exits label live reach valid lit marks => by
    simp only [Piece.reached, Marked, forall_mem_cons, forall_mem_append] at marks
    obtain ⟨hheader, hblock, htest, hstart, hbody, hnext, hrest, hmerge, -⟩ := marks
    have zero := test.marked_last testBlock reach hblock htest
    have one := body.marked_last l.body reach hstart hbody
    have two := rest.marked_last l.next reach hnext hrest
    simp only [Piece.outline, forall_mem_cons, forall_mem_append]
    refine ⟨Safe.onward lit.up fun comes => hheader.2 (lit.start.1 comes),
      Safe.loop fun comes => hblock.2 (hheader.1 comes),
      test.safe_outline exits _ _ _ valid.2.1 (lit.block hblock) htest, Safe.fork fun comes => ?_,
      body.safe_outline _ _ _ _ valid.2.2.1 ((lit.block hstart).exit hnext |>.exit hmerge) hbody,
      Safe.leave lit.flag one fun comes => hnext.2 (Piece.reach_of_passes comes),
      rest.safe_outline exits _ _ _ valid.2.2.2 (lit.block hnext) hrest, Safe.back fun comes => ?_,
      by simp⟩
    · have comes := Piece.reach_of_passes (zero.1 comes)
      exact ⟨hstart.2 comes, hmerge.2 comes⟩
    · have comes := Piece.reach_of_passes (two.1 comes)
      exact ⟨hheader.2 comes, hmerge.2 comes⟩

theorem Arms.safe_outline : (arms : Arms) → ∀ (exits : List Ident)
    (label merge : Ident) (live reach : Bool), arms.Valid exits → Lit W exits label live reach →
    (W merge ↔ reach = true) → Marked W (arms.reached reach) →
    ∀ j ∈ arms.outline merge live, j.Safe W
  | .nil => fun _ _ _ _ _ _ _ _ _ j hj => by cases hj
  | .cons head body rest => fun exits label merge live reach valid lit hmerge marks => by
    simp only [Arms.reached, Marked, forall_mem_cons, forall_mem_append] at marks
    obtain ⟨hhead, hbody, hrest⟩ := marks
    have last := body.marked_last head reach hhead hbody
    have next := rest.marked_start merge reach hmerge hrest
    simp only [Arms.outline, forall_mem_cons, forall_mem_append]
    exact ⟨body.safe_outline exits _ _ _ valid.1 (lit.block hhead) hbody,
      Safe.leave lit.flag last fun comes => next.2 (Piece.reach_of_passes comes),
      rest.safe_outline exits _ _ _ _ valid.2 lit hmerge hrest⟩

end

theorem mem_deadIf {label : Ident} : x ∈ deadIf live label ↔ live = false ∧ x = label := by
  cases live <;> simp [deadIf]

/-- Control cannot come to the blocks for which the flag was down when they were begun. -/
theorem Piece.reached_of_dead :
    (∀ (piece : Piece) (live reach : Bool), (live = false → reach = false) →
      ∀ x ∈ piece.dead live, (x, false) ∈ piece.reached reach) ∧
    ∀ (arms : Arms) (live reach : Bool), (live = false → reach = false) →
      ∀ x ∈ arms.dead live, (x, false) ∈ arms.reached reach := by
  apply Piece.labels.mutual_induct
  case case6 =>
    intro _ _ thenBlock elseBlock merge always first second _ _ live reach flag
    have after := (Piece.ifElse 0 0 thenBlock elseBlock merge always first second).passes_of_after
      live reach flag
    simp only [Piece.after, Piece.passes] at after
    grind [Piece.dead, Piece.reached, mem_deadIf]
  all_goals
    intros
    grind [Piece.dead, Piece.reached, Arms.dead, Arms.reached, mem_deadIf, Piece.passes_of_after]

/-! ## Paths -/

namespace Function

/-- Control can go from one block of a function to another. -/
def Leads (f : Function) (x y : Ident) : Prop := ∃ b ∈ f.blocks, b.label = x ∧ y ∈ b.targets

/-- A path leads from the first block of a function to the one with the label. -/
def CanReach (f : Function) (x : Ident) : Prop :=
  ∃ first, f.blocks.head? = some first ∧ Relation.ReflTransGen f.Leads first.label x

end Function

namespace Body

variable {body : Body} {f : Function} {x : Ident}

/-- The labels of a body that are marked. -/
def Lights (body : Body) (x : Ident) : Prop :=
  x = body.front ∨ x = body.code ∨ (x, true) ∈ body.piece.reached true

theorem mem_labels_of_lights (h : body.Lights x) : x ∈ body.labels := by
  rcases h with rfl | rfl | inner
  · exact mem_cons_self
  · exact mem_cons_of_mem _ mem_cons_self
  · refine mem_cons_of_mem _ (mem_cons_of_mem _ ?_)
    exact Piece.labels_reached.1 body.piece true ▸ mem_map_of_mem inner

theorem marked (distinct : body.labels.Nodup) : Marked body.Lights (body.piece.reached true) := by
  intro q hq
  obtain ⟨notFront, notCode, inner⟩ :
      body.front ∉ body.code :: body.piece.labels ∧ body.code ∉ body.piece.labels ∧
        body.piece.labels.Nodup := by
    simpa [Body.labels] using distinct
  have own : q.1 ∈ body.piece.labels := Piece.labels_reached.1 body.piece true ▸ mem_map_of_mem hq
  rw [← Piece.labels_reached.1 body.piece true] at inner
  constructor
  · rintro (front | code | mark)
    · exact absurd (mem_cons_of_mem _ (front ▸ own)) notFront
    · exact absurd (code ▸ own) notCode
    · exact congrArg Prod.snd (inj_on_of_nodup_map inner hq mark rfl)
  · intro mark
    exact .inr (.inr (mark ▸ hq))

theorem Valid.safe (h : body.Valid) (distinct : body.labels.Nodup) :
    ∀ j ∈ body.outline, j.Safe body.Lights := by
  have marks := marked distinct
  have code : body.Lights body.code := .inr (.inl rfl)
  have lit : Lit body.Lights [] body.code true true :=
    ⟨by simp, by simp [code], fun _ x hx => by cases hx⟩
  have last := body.piece.marked_last body.code true lit.start marks
  simp only [Body.outline, forall_mem_cons, forall_mem_append]
  refine ⟨Safe.goto fun _ => code, body.piece.safe_outline [] _ _ _ h.piece lit marks, ?_, by simp⟩
  have ending := h.last
  split at ending
  · exact Safe.final ending
  · rename_i down
    intro comes
    have blocked := body.piece.passes_of_after true true lit.flag (by simpa using down)
    rw [last.1 comes] at blocked
    cases blocked

theorem Valid.lights_of_canReach (h : body.Valid) (distinct : body.labels.Nodup)
    (blocks : f.blocks = body.blocks) (reach : f.CanReach x) : body.Lights x := by
  obtain ⟨first, isFirst, path⟩ := reach
  have front : first.label = body.front := by
    rw [blocks] at isFirst
    exact congrArg Block.label (Option.some.inj isFirst.symm)
  induction path with
  | refl => exact .inl front
  | tail _ edge ih =>
    obtain ⟨b, hb, rfl, target⟩ := edge
    obtain ⟨j, hj, outlines⟩ := h.exists_outlines (blocks ▸ hb)
    rw [outlines.targets] at target
    exact (h.safe distinct j hj (outlines.label ▸ ih)).2 _ target

theorem Valid.not_canReach_nowhere (h : body.Valid) (distinct : body.labels.Nodup)
    (blocks : f.blocks = body.blocks) {b : Block} (hb : b ∈ f.blocks)
    (hi : i ∈ b.body) (nowhere : i.op = .unreachable) : ¬ f.CanReach b.label := by
  intro reach
  obtain ⟨j, hj, outlines⟩ := h.exists_outlines (blocks ▸ hb)
  have comes : body.Lights j.label := outlines.label ▸ h.lights_of_canReach distinct blocks reach
  obtain ⟨code, split, straight, -⟩ := outlines.body
  have ending : i ∈ j.ending := by
    rw [split] at hi
    refine (mem_append.1 hi).resolve_left fun inCode => ?_
    have plain := straight i inCode
    rw [nowhere] at plain
    cases plain
  exact (h.safe distinct j hj comes).1 i ending nowhere

theorem reached_of_dead (hx : x ∈ body.dead) : (x, false) ∈ body.piece.reached true :=
  Piece.reached_of_dead.1 body.piece true true nofun x hx

theorem mem_labels_of_dead (hx : x ∈ body.dead) : x ∈ body.labels := by
  refine mem_cons_of_mem _ (mem_cons_of_mem _ ?_)
  exact Piece.labels_reached.1 body.piece true ▸ mem_map_of_mem (reached_of_dead hx)

theorem not_lights_dead (distinct : body.labels.Nodup) (hx : x ∈ body.dead) : ¬ body.Lights x :=
  fun lights => nomatch (marked distinct _ (reached_of_dead hx)).1 lights

end Body

theorem eq_of_nodup_flatMap {α β : Type} {g : α → List β} {list : List α}
    (h : (list.flatMap g).Nodup) {a c : α} (ha : a ∈ list) (hc : c ∈ list) {x : β} (hx : x ∈ g a)
    (hx' : x ∈ g c) : a = c := by
  by_contra differ
  have apart := (nodup_flatMap.1 h).2
  have : Std.Symm (Function.onFun List.Disjoint g) :=
    ⟨fun _ _ disjoint _ hx hx' => disjoint hx' hx⟩
  exact apart.forall ha hc differ hx hx'

/-- No path of a function leads to a block for which the flag was down, be it of the same function
or of another one. -/
theorem Builder.Laid.not_canReach_dead {b : Builder} (h : b.Laid bodies)
    {f : Function} (hbody : body ∈ bodies) (blocks : f.blocks = body.blocks)
    (hx : x ∈ b.deadBlocks) : ¬ f.CanReach x := by
  intro reach
  have comes := (h.valid body hbody).lights_of_canReach (h.nodup hbody) blocks reach
  rw [h.dead] at hx
  obtain ⟨other, hother, dead⟩ := mem_flatMap.1 hx
  obtain rfl := eq_of_nodup_flatMap h.labels.1 hbody hother (Body.mem_labels_of_lights comes)
    (Body.mem_labels_of_dead dead)
  exact Body.not_lights_dead (h.nodup hbody) dead comes

/-- The builder can be one from which building has come to the other: the record of blocks for which
the flag was down is only ever appended to. -/
def Builder.Precedes (b b' : Builder) : Prop := b.deadBlocks <+: b'.deadBlocks

/-- The builders that a run comes by precede those that come after them. -/
theorem Trace.precedes {p : Program} {s t : State} (h : Trace p s t) (regular : s.Regular p) :
    s.builder.Precedes t.builder := (h.keeps regular).later.deadBlocks

namespace Program

variable {p : Program} {o : Options} {order : SetOrder} {out : Output}

/-- Control never comes to a block that ends with the instruction that must not be executed, nor to
one that was current at a time when the flag was down. -/
theorem unreached_of_generate (h : p.generate o order = .ok out) :
    ∃ s, p.EndsIn o s ∧ out.shader = s.builder.finish order ∧ ∀ f ∈ out.shader.functions,
      (∀ b ∈ f.blocks, ∀ i ∈ b.body, i.op = .unreachable → ¬ f.CanReach b.label) ∧
        ∀ b : Builder, b.Precedes s.builder → b.reachable = false →
          ∀ x ∈ b.currentBlock, ¬ f.CanReach x := by
  obtain ⟨s, ends, shader⟩ := exists_endsIn h
  obtain ⟨bodies, laid⟩ := ends.laid
  refine ⟨s, ends, shader, fun f hf => ?_⟩
  rw [shader, Builder.functions_finish] at hf
  obtain ⟨body, hbody, blocks⟩ := laid.builder.exists_body hf
  refine ⟨fun b hb i hi nowhere => ?_, fun b precedes down x hx => ?_⟩
  · exact (laid.builder.valid body hbody).not_canReach_nowhere (laid.builder.nodup hbody) blocks hb
      hi nowhere
  · have recorded : x ∈ s.builder.deadBlocks := precedes.subset (b.recorded down x hx)
    exact laid.builder.not_canReach_dead hbody blocks recorded

theorem unreached_of_generate_tangled : ∃ out, tangled.generate {} = .ok out ∧
    ∃ s, tangled.EndsIn {} s ∧ out.shader = s.builder.finish ∧ ∀ f ∈ out.shader.functions,
      (∀ b ∈ f.blocks, ∀ i ∈ b.body, i.op = .unreachable → ¬ f.CanReach b.label) ∧
        ∀ b : Builder, b.Precedes s.builder → b.reachable = false →
          ∀ x ∈ b.currentBlock, ¬ f.CanReach x := by
  obtain ⟨out, -, h, -⟩ := exists_generate_tangled
  exact ⟨out, h, unreached_of_generate h⟩

end Program

end ShaderGen
