import ShaderGen.Proofs.Control.Graph

/-!
# Structured control flow

The functions of a module that has been made keep the rules of structured control flow
(`Program.structured_of_generate`). Instructions that name merge blocks stand right in front of
terminators, no block is the merge block of two headers, and whatever chooses between blocks is
either a selection with a merge block or the test of a loop. Seen in the order in which the blocks
stand, a loop is its header, its inner blocks and the blocks between two rounds, and it is the last
of these that goes back to the header.
-/

namespace ShaderGen

open List

variable {merge start : Ident} {advice : List Operand} {label x : Ident} {exits : List Ident}
  {before js : List Junction} {right : Ident} {i : Instruction} {piece : Piece}

/-! ## Edges of outlines -/

/-- Where control goes from the blocks of an outline. -/
def targetsOf (js : List Junction) : List Ident := js.flatMap Junction.targets

@[simp] theorem targetsOf_nil : targetsOf [] = [] := rfl

@[simp] theorem targetsOf_cons (j : Junction) (js : List Junction) :
    targetsOf (j :: js) = j.targets ++ targetsOf js := rfl

@[simp] theorem targetsOf_append (js ks : List Junction) :
    targetsOf (js ++ ks) = targetsOf js ++ targetsOf ks := flatMap_append

theorem targetsOf_subset (h : x ∈ targetsOf js) : x ∈ namesOf js := by
  obtain ⟨j, hj, hx⟩ := mem_flatMap.1 h
  exact mem_flatMap.2 ⟨j, hj, Junction.targets_subset_names hx⟩

theorem Piece.targets_outline (valid : piece.Valid exits) (label : Ident) (live : Bool) :
    ∀ x ∈ targetsOf (piece.outline label live), x ∈ piece.labels ∨ x ∈ exits :=
  fun x hx => Piece.names_outline.1 piece exits label live valid x (targetsOf_subset hx)

theorem Arms.targets_outline {arms : Arms} (valid : arms.Valid exits)
    (merge : Ident) (live : Bool) :
    ∀ x ∈ targetsOf (arms.outline merge live), x ∈ arms.labels ∨ x = merge ∨ x ∈ exits :=
  fun x hx => Piece.names_outline.2 arms exits merge live valid x (targetsOf_subset hx)

@[grind =] theorem mem_targetsOf_cons {j : Junction} :
    x ∈ targetsOf (j :: js) ↔ x ∈ j.targets ∨ x ∈ targetsOf js := mem_append

@[grind =] theorem mem_targetsOf_append {ks : List Junction} :
    x ∈ targetsOf (js ++ ks) ↔ x ∈ targetsOf js ∨ x ∈ targetsOf ks := by
  rw [targetsOf_append, mem_append]

@[grind =] theorem mem_targetsOf_nil : x ∈ targetsOf [] ↔ False := by simp

namespace Junction

variable {label x : Ident} {target : Ident} {control : Nat}

@[grind =] theorem mem_targets_onward {live : Bool} :
    x ∈ (Junction.mk label (onward live target)).targets ↔ live = true ∧ x = target := by
  cases live
  · simp [onward, targets, Instruction.targets, Instruction.nowhere]
  · simp [onward, targets, Instruction.targets, Instruction.goto, Instruction.ids, Operand.ids]

@[grind =] theorem mem_targets_goto :
    x ∈ (Junction.mk label [.goto target]).targets ↔ x = target := mem_singleton

@[grind =] theorem mem_targets_fork {c first second : Ident} :
    x ∈ (Junction.mk label [.fork c first second]).targets ↔ x = first ∨ x = second := mem_pair

@[grind =] theorem mem_targets_select {c first second : Ident} :
    x ∈ (Junction.mk label [.selecting merge control, .fork c first second]).targets ↔
      x = first ∨ x = second := mem_pair

@[grind =] theorem mem_targets_logical {left : Ident} {isAnd : Bool} :
    x ∈ (Junction.mk label [.selecting merge 0, logicalFork left isAnd right merge]).targets ↔
      x = right ∨ x = merge := by
  cases isAnd
  · exact mem_pair.trans or_comm
  · exact mem_pair

@[grind =] theorem mem_targets_switch {selector : Ident} {targets : List Operand} :
    x ∈ (Junction.mk label [.selecting merge control, .choice selector targets]).targets ↔
      x ∈ Operand.ids targets := by
  rw [Junction.targets]
  exact Iff.of_eq (congrArg (x ∈ ·) (append_nil _))

@[grind =] theorem mem_targets_loop {next : Ident} :
    x ∈ (Junction.mk label [.looping merge next advice, .goto start]).targets ↔ x = start :=
  mem_singleton

end Junction

@[grind =] theorem LoopLabels.mem_targets_back {l : LoopLabels} {again : Option Ident} :
    x ∈ (Junction.mk label (l.back again)).targets ↔
      x = l.header ∨ again.isSome = true ∧ x = l.merge := by
  cases again <;> simp [back, Junction.mem_targets_goto, Junction.mem_targets_fork]

/-! ## Loops by the order of their blocks -/

/-- The first block of an outline has the label. -/
def Starts (x : Ident) (js : List Junction) : Prop := (js.map Junction.label).head? = some x

theorem starts_cons (x : Ident) (ending : List Instruction) (js : List Junction) :
    Starts x (⟨x, ending⟩ :: js) := rfl

theorem Piece.starts_outline (valid : piece.Valid exits)
    (label : Ident) (live : Bool) (h : Starts (piece.last label) js) :
    Starts label (piece.outline label live ++ js) := by
  obtain ⟨rest, labels⟩ : ∃ rest, js.map Junction.label = piece.last label :: rest :=
    ⟨_, eq_cons_of_mem_head? h⟩
  rw [Starts, map_append, labels, append_cons, labels_outline valid label live]
  rfl

/-- A loop of an outline: its header, its inner blocks, the blocks between two rounds, and what is
behind it. -/
structure IsLoop (js before : List Junction) (header : Junction) (inner next after : List Junction)
    (merge nextLabel : Ident) : Prop where
  split : js = before ++ header :: (inner ++ next ++ after)
  ending : ∃ advice start, header.ending = [.looping merge nextLabel advice, .goto start]
  next : Starts nextLabel next
  after : Starts merge after

/-- The block is the test of a loop that goes on with `x` and ends with `y`: it comes between two
rounds and goes back to the header, or it is an inner block and goes on with the one behind it. -/
def IsTest (js : List Junction) (j : Junction) (x y : Ident) : Prop :=
  ∃ before header inner next after nextLabel,
    IsLoop js before header inner next after y nextLabel ∧
      (j ∈ next ∧ x = header.label ∨ ∃ front rest, inner = front ++ j :: rest ∧ Starts x rest)

/-- Edges to the header of a loop: at most one from outside and exactly one from inside, which comes
from the blocks between two rounds. -/
structure Entered (before : List Junction) (header : Junction) (inner next after : List Junction) :
    Prop where
  outside : (targetsOf (before ++ after)).count header.label ≤ 1
  inside : header.label ∉ targetsOf (header :: inner)
  back : (targetsOf next).count header.label = 1

/-- Blocks that can be skipped: nothing else leads to them, and but for the last one, they do not
lead to `merge`, which comes after them, nor does anything else. -/
structure Skipped (before inner : List Junction) (last : Junction) (after : List Junction)
    (merge : Ident) : Prop where
  behind : Starts merge after
  exit : merge ∉ targetsOf (before ++ inner ++ after)
  entry : ∀ k ∈ inner ++ [last], k.label ∉ targetsOf (before ++ after)

/-- A block with what is before and behind it. -/
structure Orderly (before : List Junction) (j : Junction) (after : List Junction) : Prop where
  test : ∀ c x y, j.ending = [.fork c x y] → IsTest (before ++ j :: after) j x y
  loop : ∀ m n advice start, j.ending = [.looping m n advice, .goto start] →
    ∃ inner next rest, IsLoop (before ++ j :: after) before j inner next rest m n ∧
      Entered before j inner next rest
  guard : ∀ m k left isAnd right, j.ending = [.selecting m k, logicalFork left isAnd right m] →
    ∃ inner last rest, after = inner ++ last :: rest ∧ Skipped before inner last rest m

variable (m : Ident)

namespace Orderly

variable {before after : List Junction} {label : Ident}

theorem final (h : i.op.isFinal) : Orderly before ⟨label, [i]⟩ after where
  test c x y eq := by
    obtain rfl := singleton_inj.1 eq
    cases h
  loop m n advice start eq := by cases eq
  guard m k left isAnd right eq := by cases eq

theorem onward (live : Bool) (target : Ident) :
    Orderly before ⟨label, onward live target⟩ after := by
  cases live <;> exact ⟨fun _ _ _ eq => (nomatch eq), fun _ _ _ _ eq => (nomatch eq),
    fun _ _ _ _ _ eq => (nomatch eq)⟩

theorem goto (target : Ident) : Orderly before ⟨label, [.goto target]⟩ after := onward true target

theorem selecting (k : Nat) (i : Instruction)
    (guard : ∀ left isAnd right, i = logicalFork left isAnd right m →
      ∃ inner last rest, after = inner ++ last :: rest ∧ Skipped before inner last rest m) :
    Orderly before ⟨label, [.selecting m k, i]⟩ after where
  test _ _ _ eq := (nomatch eq)
  loop _ _ _ _ eq := (nomatch eq)
  guard m' k' left isAnd right eq := by
    obtain ⟨⟨rfl, rfl⟩, rfl⟩ : (m = m' ∧ k = k') ∧ i = logicalFork left isAnd right m' := by
      simpa [Instruction.selecting] using eq
    exact guard left isAnd right rfl

end Orderly

/-- Every block of a part of an outline, with what is before and behind it. -/
def Each (φ : List Junction → Junction → List Junction → Prop) (before js after : List Junction) :
    Prop :=
  ∀ front j rest, js = front ++ j :: rest → φ (before ++ front) j (rest ++ after)

section Each

variable {φ : List Junction → Junction → List Junction → Prop} {before js ks after : List Junction}

theorem Each.nil : Each φ before [] after := by
  intro front j rest split
  simp at split

theorem Each.cons {j : Junction} (first : φ before j (js ++ after))
    (others : Each φ (before ++ [j]) js after) : Each φ before (j :: js) after := by
  intro front k rest split
  cases front with
  | nil =>
    obtain ⟨rfl, rfl⟩ := List.cons.inj split
    simpa using first
  | cons f front =>
    obtain ⟨rfl, rfl⟩ := List.cons.inj split
    simpa using others front k rest rfl

theorem Each.append (first : Each φ before js (ks ++ after))
    (second : Each φ (before ++ js) ks after) : Each φ before (js ++ ks) after := by
  induction js generalizing before with
  | nil => simpa using second
  | cons j js ih =>
    refine .cons (by simpa using first [] j js rfl) (ih ?_ (by simpa using second))
    intro front k rest split
    simpa using first (j :: front) k rest (by simp [split])

end Each

/-- Where control can go from outside of a part of an outline. -/
def Outer (exits : List Ident) (before after : List Junction) (x : Ident) : Prop :=
  x ∈ exits ∨ x ∈ targetsOf before ∨ x ∈ targetsOf after

/-- Nothing outside leads to the labels, unless they are entries. -/
def Enclosed (labels entries exits : List Ident) (before after : List Junction) : Prop :=
  labels.Nodup ∧ ∀ x ∈ labels, Outer exits before after x → x ∈ entries

section Enclosed

variable {labels entries exits : List Ident} {before after : List Junction} {ids : List Ident}

/-- Nothing leads to a part of the labels but from other parts. -/
theorem Enclosed.part (h : Enclosed labels entries exits before after) (front rest : List Ident)
    {part entries' exits' : List Ident} {before' after' : List Junction}
    (split : labels = front ++ part ++ rest) (inner : ∀ x ∈ part, x ∈ entries → x ∈ entries')
    (outer : ∀ x, Outer exits' before' after' x →
      x ∈ front ∨ x ∈ rest ∨ x ∈ entries' ∨ Outer exits before after x) :
    Enclosed part entries' exits' before' after' := by
  obtain ⟨distinct, outside⟩ := h
  subst split
  simp only [nodup_append', List.Disjoint, mem_append] at distinct outside
  refine ⟨distinct.1.2.1, fun x hx hout => ?_⟩
  rcases outer x hout with inFront | inRest | entry | out
  · exact (distinct.1.2.2 inFront hx).elim
  · exact (distinct.2.2 (.inr hx) inRest).elim
  · exact entry
  · exact inner x hx (outside x (.inl (.inr hx)) out)

/-- Nothing leads to the first label but from other parts. -/
theorem Enclosed.not_mem {xs : List Ident} (h : Enclosed (x :: ids) [] exits before after)
    (outer : ∀ y ∈ xs, y ∈ ids ∨ Outer exits before after y) : x ∉ xs := by
  intro hx
  rcases outer x hx with inside | out
  · exact (nodup_cons.1 h.1).1 inside
  · exact not_mem_nil (h.2 x mem_cons_self out)

theorem Enclosed.ne {y : Ident}
    (h : Enclosed (x :: ids) [] exits before after) (hy : y ∈ ids) : x ≠ y := by
  rintro rfl
  exact (nodup_cons.1 h.1).1 hy

end Enclosed

theorem count_targets_onward_le (label target x : Ident) (live : Bool) :
    (Junction.mk label (onward live target)).targets.count x ≤ 1 := by
  cases live
  · exact Nat.zero_le 1
  · exact count_le_length

theorem LoopLabels.count_targets_back {l : LoopLabels} (ne : l.header ≠ l.merge) (label : Ident)
    (again : Option Ident) : (Junction.mk label (l.back again)).targets.count l.header = 1 := by
  cases again with
  | none => exact count_singleton_self
  | some c =>
    change [l.header, l.merge].count l.header = 1
    rw [count_cons_self, count_eq_zero.2 (by simpa using ne)]

section Loops

variable {l : LoopLabels} {live : Bool} {again : Option Ident} {next after : List Junction}
  {last : Ident}

/-- The header of a loop whose first inner block is the given one. -/
def LoopLabels.junction (l : LoopLabels) (advice : List Operand) (start : Ident) : Junction :=
  ⟨l.header, [.looping l.merge l.next advice, .goto start]⟩

theorem LoopLabels.isLoop (hnext : Starts l.next next) (hafter : Starts l.merge after)
    (advice : List Operand) (start : Ident) (before inner : List Junction) :
    IsLoop (before ++ l.junction advice start :: (inner ++ next ++ after)) before
      (l.junction advice start) inner next after l.merge l.next :=
  ⟨rfl, ⟨advice, start, rfl⟩, hnext, hafter⟩

theorem Orderly.header {inner : List Junction} (hnext : Starts l.next next)
    (hafter : Starts l.merge after)
    (entered : Entered before (l.junction advice start) inner next after) :
    Orderly before (l.junction advice start) (inner ++ next ++ after) where
  test c x y eq := by cases eq
  guard m k left isAnd right eq := by cases eq
  loop m n advice' start' eq := by
    obtain ⟨rfl, rfl⟩ : m = l.merge ∧ n = l.next := by
      simp [LoopLabels.junction, Instruction.looping] at eq
      exact ⟨eq.1.1.symm, eq.1.2.1.symm⟩
    exact ⟨inner, next, after, l.isLoop hnext hafter advice start before inner, entered⟩

theorem LoopLabels.entered {inner rest : List Junction}
    (hmerge : l.header ≠ l.merge) (hstart : l.header ≠ start)
    (hbefore : l.header ∉ targetsOf before) (hafter : l.header ∉ targetsOf after)
    (hinner : l.header ∉ targetsOf inner) (hrest : l.header ∉ targetsOf rest) :
    Entered (before ++ [⟨label, onward live l.header⟩]) (l.junction advice start) inner
      (rest ++ [⟨last, l.back again⟩]) after where
  outside := by
    have enter := count_targets_onward_le label l.header l.header live
    simpa [junction, count_append, count_eq_zero.2 hbefore, count_eq_zero.2 hafter]
      using enter
  inside := by simp [junction, Junction.mem_targets_loop, hstart, hinner]
  back := by
    have back := l.count_targets_back hmerge last again
    simpa [junction, count_append, count_eq_zero.2 hrest] using back

theorem LoopLabels.orderly_back {rest : List Junction}
    (hnext : Starts l.next (rest ++ [⟨last, l.back again⟩])) (hafter : Starts l.merge after)
    (advice : List Operand) (start : Ident) (before inner : List Junction) :
    Orderly (before ++ l.junction advice start :: (inner ++ rest)) ⟨last, l.back again⟩ after := by
  cases again with
  | none => exact .goto _
  | some c =>
    refine ⟨fun c' x y eq => ?_, fun _ _ _ _ eq => (nomatch eq), fun _ _ _ _ _ eq => (nomatch eq)⟩
    obtain ⟨rfl, rfl⟩ : x = l.header ∧ y = l.merge := by
      simp [back, Instruction.fork] at eq
      exact ⟨eq.2.1.symm, eq.2.2.symm⟩
    have loop := l.isLoop hnext hafter advice start before inner
    exact ⟨_, _, _, _, _, _, by simpa using loop, .inl ⟨by simp, rfl⟩⟩

theorem LoopLabels.orderly_test {rest : List Junction} (hrest : Starts x rest)
    (hnext : Starts l.next next) (hafter : Starts l.merge after) (advice : List Operand)
    (start c last : Ident) (before front : List Junction) :
    Orderly (before ++ l.junction advice start :: front) ⟨last, [.fork c x l.merge]⟩
      (rest ++ next ++ after) := by
  refine ⟨fun c' x' y eq => ?_, fun _ _ _ _ eq => (nomatch eq), fun _ _ _ _ _ eq => (nomatch eq)⟩
  obtain ⟨rfl, rfl⟩ : x' = x ∧ y = l.merge := by
    simp [Instruction.fork] at eq
    exact ⟨eq.2.1.symm, eq.2.2.symm⟩
  have loop := l.isLoop hnext hafter advice start before
    (front ++ ⟨last, [.fork c x' l.merge]⟩ :: rest)
  exact ⟨_, _, _, _, _, _, by simpa using loop, .inr ⟨front, rest, rfl, hrest⟩⟩

end Loops

theorem Arms.start_mem_heads (arms : Arms) (merge : Ident) :
    arms.start merge = merge ∨ arms.start merge ∈ arms.heads := by
  cases arms with
  | nil => exact .inl rfl
  | cons label body rest => exact .inr mem_cons_self

theorem Piece.skipped_outline {operand : Piece} (valid : operand.Valid exits)
    (live : Bool) {after : List Junction} (ending : List Instruction)
    (h : Enclosed (right :: (operand.labels ++ [merge])) [] exits before after)
    (starts : Starts merge after) :
    Skipped before (operand.outline right live) ⟨operand.last right, ending⟩ after merge where
  behind := starts
  exit := by
    have inner := operand.targets_outline valid right live
    obtain ⟨distinct, outside⟩ := h
    grind [Outer]
  entry k hk hx := by
    have inside : k.label ∈ right :: operand.labels := by
      rw [← labels_outline valid right live]
      simpa using mem_map_of_mem (f := Junction.label) hk
    have outer := h.2 k.label (by simpa [or_assoc] using Or.inl inside)
    grind [Outer]

mutual

theorem Piece.orderly_outline : (piece : Piece) →
    ∀ (exits : List Ident) (label : Ident) (live : Bool)
    (before after : List Junction), piece.Valid exits →
    Enclosed piece.labels [] exits before after →
    Starts (piece.last label) after → Each Orderly before (piece.outline label live) after
  | .plain _ => fun _ _ _ _ _ _ _ _ => .nil
  | .seq first second => fun exits label live before after valid h starts => by
    have one := first.targets_outline valid.1 label live
    have two := second.targets_outline valid.2 (first.last label) (first.after live)
    refine .append
      (first.orderly_outline exits _ _ _ _ valid.1 ?_ (Piece.starts_outline valid.2 _ _ starts))
      (second.orderly_outline exits _ _ _ _ valid.2 ?_ starts)
    · apply h.part [] _ rfl <;> grind [Outer]
    · apply h.part _ [] (append_nil _).symm <;> grind [Outer]
  | .stop last follow => fun _ _ _ _ _ valid _ _ => .cons (.final valid) .nil
  | .jump target follow => fun _ _ live _ _ _ _ _ => .cons (.onward live target) .nil
  | .ifThen c control thenBlock merge body => fun exits label live before after valid h starts => by
    refine .cons (.selecting _ _ _ fun _ _ _ _ => ⟨_, _, _, append_assoc _ _ _,
      body.skipped_outline valid live _ h starts⟩)
      (.append (body.orderly_outline exits _ _ _ _ valid ?_
        (starts_cons _ _ _)) (.cons (.onward _ _) .nil))
    apply h.part [thenBlock] _ rfl <;> grind [Outer]
  | .ifElse c control thenBlock elseBlock merge always first second =>
      fun exits label live before after valid h starts => by
    have one := first.targets_outline valid.1 thenBlock live
    have two := second.targets_outline valid.2 elseBlock live
    have sides : thenBlock ≠ merge ∧ elseBlock ≠ merge := by grind [Enclosed, Piece.labels]
    refine .cons (.selecting _ _ _ fun left isAnd right eq => ?_)
      (.append (first.orderly_outline exits _ _ _ _ valid.1 ?_ (starts_cons _ _ _))
      (.cons (.onward _ _) (.append (second.orderly_outline exits _ _ _ _ valid.2
        ?_ (starts_cons _ _ _)) (.cons (.onward _ _) .nil))))
    · cases isAnd <;> simp [logicalFork, Instruction.fork, sides] at eq
    · apply h.part [thenBlock] _ rfl <;> grind [Outer]
    · apply h.part (thenBlock :: (first.labels ++ [elseBlock])) [merge]
        (by simp [Piece.labels]) <;> grind [Outer]
  | .logical left isAnd right merge operand _ =>
      fun exits label live before after valid h starts => by
    refine .cons (.selecting _ _ _ fun _ _ _ _ => ⟨_, _, _, append_assoc _ _ _,
      operand.skipped_outline valid true _ h starts⟩)
      (.append (operand.orderly_outline exits _ _ _ _
        valid ?_ (starts_cons _ _ _)) (.cons (.goto _) .nil))
    apply h.part [right] _ rfl <;> grind [Outer]
  | .switch selector control targets merge arms =>
      fun exits label live before after valid h starts => by
    have heads := valid.1
    refine .cons (.selecting _ _ _ fun _ isAnd _ eq => by cases isAnd <;> cases eq)
      (arms.orderly_outline _ _ _ _ _ valid.2 ?_)
    apply h.part [] _ rfl <;> grind [Outer]
  | .loop l advice body rest again => fun exits label live before after valid h starts => by
    have one := body.targets_outline valid.2.1 l.body live
    have two := rest.targets_outline valid.2.2 l.next live
    have hnext := Piece.starts_outline valid.2.2 l.next live
      (starts_cons (rest.last l.next) (l.back again) [])
    refine .cons (.onward _ _) (.cons ?_ (.append (body.orderly_outline _ _ _ _ _ valid.2.1 ?_
      (starts_cons _ _ _))
      (.cons (.onward _ _) (.append (rest.orderly_outline exits _ _ _ _ valid.2.2 ?_
        (starts_cons _ _ _)) (.cons ?_ .nil)))))
    · have entered : Entered (before ++ [⟨label, onward live l.header⟩]) (l.junction advice l.body)
          (body.outline l.body live ++ [⟨body.last l.body, onward (body.after live) l.next⟩])
          (rest.outline l.next live ++ [⟨rest.last l.next, l.back again⟩]) after := by
        apply l.entered (h.ne (by simp)) (h.ne (by simp)) <;> apply h.not_mem <;> grind [Outer]
      simpa [LoopLabels.junction] using Orderly.header hnext starts entered
    · apply h.part [l.header, l.body] _ rfl <;> grind [Outer]
    · apply h.part (l.header :: l.body :: (body.labels ++ [l.next])) [l.merge]
        (by simp [Piece.labels]) <;> grind [Outer]
    · have back := LoopLabels.orderly_back hnext starts advice l.body
        (before ++ [⟨label, onward live l.header⟩])
        (body.outline l.body live ++ [⟨body.last l.body, onward (body.after live) l.next⟩])
      simpa [LoopLabels.junction] using back
  | .whileLoop l advice testBlock test condition body rest =>
      fun exits label live before after valid h starts => by
    have zero := test.targets_outline valid.2.1 testBlock live
    have one := body.targets_outline valid.2.2.1 l.body live
    have two := rest.targets_outline valid.2.2.2 l.next live
    have hnext := Piece.starts_outline valid.2.2.2 l.next live
      (starts_cons (rest.last l.next) (l.back none) [])
    refine .cons (.onward _ _) (.cons ?_ (.append (test.orderly_outline exits _ _ _ _ valid.2.1 ?_
      (starts_cons _ _ _)) (.cons ?_ (.append (body.orderly_outline _ _ _ _ _ valid.2.2.1 ?_
        (starts_cons _ _ _)) (.cons (.onward _ _) (.append (rest.orderly_outline exits _ _ _ _
          valid.2.2.2 ?_ (starts_cons _ _ _)) (.cons (.goto _) .nil)))))))
    · have entered : Entered (before ++ [⟨label, onward live l.header⟩])
        (l.junction advice testBlock)
          (test.outline testBlock live ++ ⟨test.last testBlock, [.fork condition l.body l.merge]⟩ ::
            (body.outline l.body live ++ [⟨body.last l.body, onward (body.after live) l.next⟩]))
          (rest.outline l.next live ++ [⟨rest.last l.next, l.back none⟩]) after := by
        apply l.entered (h.ne (by simp)) (h.ne (by simp)) <;> apply h.not_mem <;> grind [Outer]
      simpa [LoopLabels.junction] using Orderly.header hnext starts entered
    · apply h.part [l.header, testBlock] _ rfl <;> grind [Outer]
    · have hbody := Piece.starts_outline valid.2.2.1 l.body live (starts_cons (body.last l.body)
        (onward (body.after live) l.next) [])
      have tests := LoopLabels.orderly_test hbody hnext starts advice testBlock condition
        (test.last testBlock) (before ++ [⟨label, onward live l.header⟩])
        (test.outline testBlock live)
      simpa [LoopLabels.junction] using tests
    · apply h.part (l.header :: testBlock :: (test.labels ++ [l.body]))
        (l.next :: (rest.labels ++ [l.merge])) (by simp [Piece.labels]) <;> grind [Outer]
    · apply h.part (l.header :: testBlock :: (test.labels ++ l.body :: (body.labels ++ [l.next])))
        [l.merge] (by simp [Piece.labels]) <;> grind [Outer]

theorem Arms.orderly_outline : (arms : Arms) → ∀ (exits : List Ident) (merge : Ident) (live : Bool)
    (before after : List Junction), arms.Valid exits →
    Enclosed arms.labels arms.heads (merge :: exits) before after →
    Each Orderly before (arms.outline merge live) after
  | .nil => fun _ _ _ _ _ _ _ => .nil
  | .cons label body rest => fun exits merge live before after valid h => by
    have one := body.targets_outline valid.1 label live
    have two := rest.targets_outline valid.2 merge live
    have heads := rest.heads_subset
    have start := rest.start_mem_heads merge
    have distinct := h.1
    simp only [Arms.labels, nodup_cons, nodup_append', List.Disjoint, mem_append]
      at distinct
    refine .append (body.orderly_outline exits _ _ _ _ valid.1 ?_ (starts_cons _ _ _))
      (.cons (.onward _ _) (rest.orderly_outline exits _ _ _ _ valid.2 ?_))
    · apply h.part [label] _ rfl <;> grind [Outer, Arms.heads]
    · apply h.part (label :: body.labels) [] (by simp [Arms.labels]) <;>
        grind [Outer, Arms.heads]

end

/-! ## Merge blocks -/

/-- The merge blocks that an ending names. -/
def Junction.merges (j : Junction) : List Ident :=
  (j.ending.filter fun i => i.op.isMerge).flatMap fun i => i.ids.take 1

namespace Junction

variable {label : Ident}

@[simp] theorem merges_onward (live : Bool) (target : Ident) :
    (Junction.mk label (onward live target)).merges = [] := by
  cases live <;> rfl

@[simp] theorem merges_select (k : Nat) (c x y : Ident) :
    (Junction.mk label [.selecting m k, .fork c x y]).merges = [m] := rfl

@[simp] theorem merges_logical (left right : Ident) (isAnd : Bool) :
    (Junction.mk label [.selecting m 0, logicalFork left isAnd right m]).merges = [m] := by
  cases isAnd <;> rfl

@[simp] theorem merges_switch (k : Nat) (s : Ident) (targets : List Operand) :
    (Junction.mk label [.selecting m k, .choice s targets]).merges = [m] := rfl

@[simp] theorem merges_loop (n : Ident) (advice : List Operand) (t : Ident) :
    (Junction.mk label [.looping m n advice, .goto t]).merges = [m] := rfl

@[simp] theorem merges_fork (c x y : Ident) : (Junction.mk label [.fork c x y]).merges = [] := rfl

@[simp] theorem merges_back (l : LoopLabels) (again : Option Ident) :
    (Junction.mk label (l.back again)).merges = [] := by
  cases again <;> rfl

end Junction

def Function.outline (f : Function) : List Junction := f.blocks.map Block.outline

namespace Ending

variable {code ending front rest : List Instruction} {i : Instruction}

/-- What an instruction in an ending is, by where it stands: in front of the terminator, where it
names a merge block, behind such an instruction, or alone. -/
theorem split (h : Ending ending) (split : ending = front ++ i :: rest) :
    (front = [] ∧ i.op.isMerge ∧ (∃ last, rest = [last] ∧ last.op.isTerminator) ∧
      (i.op = .loopMerge → ∃ m n advice start, ending = [.looping m n advice, .goto start])) ∨
    (i.op.isTerminator ∧ ∃ k, front = [k] ∧ (i.op ≠ .branch → k.op = .selectionMerge)) ∨
    (i.op.isTerminator ∧ i.op ≠ .switch ∧
      (i.op = .branchConditional → ∃ c x y, i = .fork c x y ∧ ending = [i])) := by
  have single {k : Instruction} (h : [k] = front ++ i :: rest) : i = k ∧ [k] = [i] := by
    cases front with
    | nil =>
      obtain ⟨rfl, -⟩ := List.cons.inj h
      exact ⟨rfl, rfl⟩
    | cons f front => simp at h
  have pair {k last : Instruction} (h : [k, last] = front ++ i :: rest) :
      front = [] ∧ i = k ∧ rest = [last] ∨ front = [k] ∧ i = last := by
    rcases front with _ | ⟨_, _ | ⟨_, _⟩⟩
    · simpa [eq_comm] using h
    · simp_all
    · simp at h
  cases h with
  | select m k c x y | switch m k s targets =>
    rcases pair split with ⟨rfl, rfl, rfl⟩ | ⟨rfl, rfl⟩
    · exact .inl ⟨rfl, rfl, ⟨_, rfl, rfl⟩, by rintro ⟨⟩⟩
    · exact .inr (.inl ⟨rfl, _, rfl, fun _ => rfl⟩)
  | loop m n advice start =>
    rcases pair split with ⟨rfl, rfl, rfl⟩ | ⟨rfl, rfl⟩
    · exact .inl ⟨rfl, rfl, ⟨_, rfl, rfl⟩, fun _ => ⟨m, n, advice, start, rfl⟩⟩
    · exact .inr (.inl ⟨rfl, _, rfl, fun other => absurd rfl other⟩)
  | test c x y =>
    obtain ⟨rfl, whole⟩ := single split
    exact .inr (.inr ⟨rfl, by rintro ⟨⟩, fun _ => ⟨c, x, y, rfl, whole⟩⟩)
  | final final =>
    obtain ⟨rfl, -⟩ := single split
    refine .inr (.inr ⟨Opcode.isTerminator_of_isFinal final, fun isSwitch => ?_, fun isFork => ?_⟩)
    · simp [isSwitch, Opcode.isFinal] at final
    · simp [isFork, Opcode.isFinal] at final
  | goto | nowhere =>
    obtain ⟨rfl, -⟩ := single split
    exact .inr (.inr ⟨rfl, by rintro ⟨⟩, by rintro ⟨⟩⟩)

end Ending

variable {f : Function}

theorem Body.Valid.function_outline {body : Body} (h : body.Valid)
    (blocks : f.blocks = body.blocks) : f.outline = body.outline := by
  rw [Function.outline, blocks, ← forall₂_eq_eq_eq, forall₂_map_left_iff]
  refine forall₂_iff_get.2 ⟨h.outlined.length_eq.symm, fun n hblock hjunction => ?_⟩
  exact ((forall₂_iff_get.1 h.outlined).2 n hjunction hblock).outline

namespace Body.Valid

variable {body : Body}

theorem targets_last (h : body.Valid) (label : Ident) :
    (Junction.mk label [body.last]).targets = [] := by
  have last := h.last
  split at last
  · have none := Instruction.labelIds_of_isFinal last
    exact eq_nil_iff_forall_not_mem.2 fun x hx => by
      simpa [none] using Junction.targets_subset_names hx
  · exact last ▸ rfl

theorem orderly_last (h : body.Valid) {after : List Junction} :
    Orderly before ⟨label, [body.last]⟩ after := by
  have last := h.last
  split at last
  · exact .final last
  · exact last ▸ .onward false label

theorem orderly (h : body.Valid) (distinct : body.labels.Nodup) :
    Each Orderly [] body.outline [] := by
  have enclosed : Enclosed body.piece.labels [] [] [⟨body.front, [.goto body.code]⟩]
      [⟨body.piece.last body.code, [body.last]⟩] := by
    have inner := (nodup_cons.1 (nodup_cons.1 distinct).2)
    refine ⟨inner.2, fun x hx out => ?_⟩
    rcases out with inExits | inFront | inLast
    · exact inExits
    · simp only [mem_targetsOf_cons, Junction.mem_targets_goto, mem_targetsOf_nil,
        or_false] at inFront
      exact (inner.1 (inFront ▸ hx)).elim
    · rwa [targetsOf_cons, h.targets_last] at inLast
  exact .cons (.goto _) (.append (body.piece.orderly_outline [] _ _ _ _ h.piece enclosed
    (starts_cons _ _ _)) (.cons h.orderly_last .nil))

end Body.Valid

end ShaderGen
