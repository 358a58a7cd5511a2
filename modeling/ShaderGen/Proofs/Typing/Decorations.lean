import ShaderGen.Proofs.Scope.Declarations
import ShaderGen.Proofs.Typing.Run

/-!
# Decorations of the module

An id is decorated with what it has only once right when it is made, by one step that knows all
there is to settle about it (`Builder.OwnNote`). So no two decorations of a finished module
contradict each other, whatever order the symbols and types of the program are met in
(`Program.decorations_consistent`).
-/

namespace ShaderGen

open List
/-- The decorations and names of a module are consistent. -/
structure Module.Decorated (m : Module) : Prop where
  nodup : m.annotations.Nodup
  /-- No id, and no member, has two of the decorations that it has only once. -/
  agree : ∀ a ∈ m.annotations, ∀ a' ∈ m.annotations, a.target = a'.target → a.member = a'.member →
    a.decoration.topic?.isSome → a.decoration.topic? = a'.decoration.topic? → a = a'
  defined : ∀ a ∈ m.annotations, a.target ∈ m.ids
  named : (m.names.map fun n => (n.target, n.member)).Nodup

/-- What is skipped can be related to something that is kept already. -/
theorem pairwise_foldl_keep {α : Type} {rel : α → α → Prop} (skip : List α → α → Prop)
    [∀ kept a, Decidable (skip kept a)] (apart : ∀ kept a, ¬ skip kept a → ∀ k ∈ kept, rel k a)
    {list init : List α} (h : init.Pairwise rel) :
    (list.foldl (fun kept a => if skip kept a then kept else kept ++ [a]) init).Pairwise rel := by
  induction list generalizing init with
  | nil => exact h
  | cons a rest ih =>
    rw [foldl_cons]
    refine ih ?_
    split
    · exact h
    · rename_i new
      refine pairwise_append.2 ⟨h, pairwise_singleton _ _, fun k hk c hc => ?_⟩
      rw [mem_singleton.1 hc]
      exact apart init a new k hk

namespace Builder

theorem annotations_start (target : Target) (o : Options) :
    (start target o).output.annotations = [] := by
  obtain ⟨extra, notes, none⟩ :=
    (setup_adorned target (fun _ => False) _ () _ (ends_setup target o)).notes
  obtain rfl := eq_nil_iff_forall_not_mem.2 none
  exact notes

theorem mem_annotations_finish (b : Builder) {order : SetOrder} {a : Annotation}
    (h : a ∈ (b.finish order).annotations) : a ∈ b.output.annotations := by
  have notes := congrArg (·.output.annotations) (b.narrowed_eq order)
  exact notes ▸ (mem_of_mem_foldl_keep _ h).resolve_left (by simp)

theorem agree_of_trace {p : Program} {o : Options} {s : State} (trace : Trace p (p.initial o) s) :
    Annotation.Agree s.builder.output.annotations := by
  obtain ⟨extra, notes, agree, -⟩ := (trace.keeps (State.regular_initial p o)).later.notes
  rw [notes, show (p.initial o).builder.output.annotations = [] from annotations_start p.target o]
  exact agree

end Builder

namespace Program

variable {p : Program} {o : Options} {order : SetOrder} {out : Output}

/-- **Decorations are consistent in every module**: none is there twice, none contradicts another
one, and each is about an id of the module. An id and a member have one name at most. -/
theorem decorations_consistent (h : p.generate o order = .ok out) : out.shader.Decorated := by
  obtain ⟨s, ends, shader⟩ := exists_endsIn h
  have agree := Builder.agree_of_trace (Codegen.whole_trace ends)
  obtain ⟨l, sound, hs, -, owed, -⟩ := ends.settled True fun watched => absurd trivial watched
  obtain ⟨l', b', memoryModel, sound', -, owed', finish⟩ := sound.finish hs owed order
  rw [shader]
  refine ⟨?_, fun a ha a' ha' target member settles same => ?_, fun a ha => ?_, ?_⟩
  · refine pairwise_foldl_keep _ (fun kept a new k hk same => ?_) List.Pairwise.nil
    exact new (by simpa [← same] using hk)
  · obtain ⟨topic, found⟩ := Option.isSome_iff_exists.1 settles
    have first : a.topic? = some (a.target, a.member, topic) := by simp [found, Annotation.topic?]
    have second : a'.topic? = some (a.target, a.member, topic) := by
      simp [← same, Annotation.topic?, found, target, member]
    exact agree a (s.builder.mem_annotations_finish ha) a' (s.builder.mem_annotations_finish ha')
      _ first second
  · rw [finish] at ha ⊢
    obtain ⟨placed, -⟩ := sound'.annotated a ((mem_of_mem_foldl_keep _ ha).resolve_left (by simp))
    exact placed.mem_ids owed'
  · refine pairwise_map.2 ?_
    refine pairwise_foldl_keep _ ?_ List.Pairwise.nil
    intro kept n new k hk same
    simp only [Prod.mk.injEq] at same
    exact new (any_eq_true.2 ⟨k, hk, by simp [same]⟩)

theorem decorations_consistent_linked : ∃ out, linked.generate {} = .ok out ∧
    out.shader.annotations ≠ [] ∧ out.shader.Decorated := by
  have made : (linked.generate {}).toOption.any fun out => out.shader.annotations ≠ [] := by
    decide +kernel
  obtain ⟨out, h, some⟩ := exists_ok_of_any made
  exact ⟨out, h, of_decide_eq_true some, decorations_consistent h⟩

end Program

end ShaderGen
