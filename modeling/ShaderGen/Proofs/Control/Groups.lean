import Mathlib.Data.List.Induction
import ShaderGen.Proofs.Generation.Order

/-!
# The groups of a switch

The groups that the body of a switch is cut into are the body again, from its first label on
(`CaseGroup.caseGroups_partition`): written out one after the other, labels first, they give it
back. So control that comes to a label goes on with the first statement behind it.
-/

namespace ShaderGen.CaseGroup

open List

variable {α : Type} {label? : α → Option Jump} {body : List α} {groups : List (CaseGroup α)}

/-- The labels and statements of a group as they stand in the body. -/
def written (g : CaseGroup α) : List (Jump ⊕ α) := g.labels.map .inl ++ g.statements.map .inr

/-- The body of a switch, with labels told apart from statements. -/
def items (label? : α → Option Jump) (body : List α) : List (Jump ⊕ α) :=
  body.map fun a => (label? a).elim (.inr a) .inl

/-- The groups, of which the last one comes first, are the body so far from its first label on. -/
structure Cuts (label? : α → Option Jump) (body : List α) (groups : List (CaseGroup α)) : Prop where
  whole : groups.reverse.flatMap written = (items label? body).dropWhile Sum.isRight
  labelled : ∀ g ∈ groups, g.labels ≠ []
  filled : ∀ g ∈ groups.tail, g.statements ≠ []

theorem Cuts.add (h : Cuts label? body groups) (a : α) :
    Cuts label? (body ++ [a]) (add label? groups a) := by
  have longer : (items label? (body ++ [a])).dropWhile Sum.isRight = if groups = [] then
      [(label? a).elim (.inr a) .inl].dropWhile Sum.isRight
      else groups.reverse.flatMap written ++ [(label? a).elim (.inr a) .inl] := by
    rw [items, map_append, dropWhile_append, ← items, ← h.whole]
    cases groups with
    | nil => rfl
    | cons g before => simp [written, h.labelled g mem_cons_self]
  obtain ⟨-, labelled, filled⟩ := h
  unfold CaseGroup.add
  split <;> rename_i label
  · exact ⟨by simp [longer, written, label], by simp, by simp⟩
  · split <;> rename_i empty
    · refine ⟨?_, ?_, filled⟩
      · simp [longer, written, label, List.isEmpty_iff.1 empty]
      · simpa using fun g hg => labelled g (mem_cons_of_mem _ hg)
    · refine ⟨by simp [longer, written, label], by simpa using labelled, ?_⟩
      simpa [List.isEmpty_iff] using And.intro empty filled
  · exact ⟨by simp [longer, label, dropWhile], by simp, by simp⟩
  · exact ⟨by simp [longer, written, label], by simpa using labelled, filled⟩

theorem cuts_foldl (label? : α → Option Jump) (body : List α) :
    Cuts label? body (body.foldl (CaseGroup.add label?) []) := by
  induction body using reverseRecOn with
  | nil => exact ⟨rfl, by simp, by simp⟩
  | append_singleton body a ih => simpa using ih.add a

/-- A label joins the last group so far or opens one behind it. -/
theorem exists_add (groups : List (CaseGroup α)) {a : α} {l : Jump} (label : label? a = some l) :
    ∃ earlier front, CaseGroup.add label? groups a = ⟨front ++ [l], []⟩ :: earlier ∧
      earlier.reverse.flatMap written ++ front.map .inl = groups.reverse.flatMap written := by
  cases groups with
  | nil => exact ⟨[], [], by simp [CaseGroup.add, label]⟩
  | cons g earlier =>
    by_cases empty : g.statements = []
    · exact ⟨earlier, g.labels, by simp [CaseGroup.add, label, empty, written]⟩
    · exact ⟨g :: earlier, [], by simp [CaseGroup.add, label, empty]⟩

/-- The group that the body is in the middle of goes on with the labels that follow. Its first
statement is the first one to come, unless it has got one. -/
theorem exists_groupsFrom (label? : α → Option Jump) (g : CaseGroup α) (rest : List α) :
    ∃ labels statements later, groupsFrom label? g rest = ⟨g.labels ++ labels, statements⟩ ::
    later ∧
      statements.head? = g.statements.head?.or (rest.find? fun a => (label? a).isNone) := by
  induction rest generalizing g with
  | nil => exact ⟨[], g.statements, [], by simp [groupsFrom], by simp⟩
  | cons a rest ih =>
    rw [groupsFrom]
    cases label : label? a with
    | none =>
      obtain ⟨labels, statements, later, same, head⟩ :=
        ih { g with statements := g.statements ++ [a] }
      exact ⟨labels, statements, later, same, by rw [head]; cases g.statements <;> simp [label]⟩
    | some l =>
      dsimp only
      split <;> rename_i empty
      · obtain ⟨labels, statements, later, same, head⟩ := ih { g with labels := g.labels ++ [l] }
        exact ⟨l :: labels, statements, later, by simpa using same, by simp [head, label]⟩
      · refine ⟨[], g.statements, _, by simp; rfl, ?_⟩
        cases statements : g.statements with
        | nil => simp [statements] at empty
        | cons => simp

/-- **The groups of a switch are its body.** Written out in order, they give back the body without
the statements in front of the first label. Every group has labels, and every group but the last one
has statements. What has been written out in front of a label is what stands in front of it in the
body, and the group that the label belongs to begins with the first statement behind the label. -/
theorem caseGroups_partition (label? : α → Option Jump) (body : List α) :
    (caseGroups label? body).flatMap written = (items label? body).dropWhile Sum.isRight ∧
    (∀ g ∈ caseGroups label? body, g.labels ≠ []) ∧
    (∀ g ∈ (caseGroups label? body).dropLast, g.statements ≠ []) ∧
    ∀ before a after l, body = before ++ a :: after → label? a = some l →
      ∃ earlier g later front back, caseGroups label? body = earlier ++ g :: later ∧
        g.labels = front ++ l :: back ∧
        earlier.flatMap written ++ front.map .inl = (items label? before).dropWhile Sum.isRight ∧
        g.statements.head? = after.find? fun a => (label? a).isNone := by
  obtain ⟨whole, labelled, filled⟩ := cuts_foldl label? body
  refine ⟨whole, by simpa [caseGroups] using labelled, by simpa [caseGroups] using filled, ?_⟩
  rintro before a after l rfl label
  obtain ⟨earlier, front, opened, same⟩ := exists_add (before.foldl (add label?) []) label
  obtain ⟨back, statements, later, rest, head⟩ := exists_groupsFrom label? ⟨front ++ [l], []⟩ after
  refine ⟨earlier.reverse, ⟨front ++ [l] ++ back, statements⟩, later, front,
    back, ?_, by simp, ?_, head⟩
  · simp [caseGroups, opened, foldl_add, rest]
  · rw [same, (cuts_foldl label? before).whole]

end ShaderGen.CaseGroup
