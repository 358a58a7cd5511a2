import ShaderGen.Proofs.Scope.Dominance

/-!
# Declarations in order

Types, constants and variables at module scope are declared in an order in which they can be read
once from front to back: each one uses what stands before it. Structures that refer to each other
make this impossible without pointer types that are announced before they are declared. Each
announcement is answered by one declaration, however the references between structures go round.

This holds of every program, also of one whose functions share variables, since functions are free
to use what they like as far as the order at module scope is concerned.
-/

namespace ShaderGen

open List
namespace Module

/-- Every pointer type that is announced is declared later, exactly once, in the same storage class
and for a structure that is declared before that. -/
def CompletesPointers (m : Module) : Prop :=
  ∀ before i after, m.globals = before ++ i :: after → i.op = .typeForwardPointer →
    ∃ x storage mid pointee rest, i = .announcement x storage ∧
      after = mid ++ .pointerType x storage pointee :: rest ∧
      x ∉ results (before ++ i :: mid ++ rest) ∧
      ∃ k ∈ before ++ i :: mid, k.op = .typeStruct ∧ k.result = some pointee

/-- Whatever is used at module scope is declared or announced before. An announcement names the
pointer type that it announces itself. -/
def InOrder (m : Module) : Prop :=
  ∀ before i after, m.globals = before ++ i :: after → ∀ x ∈ i.refs,
    x ∈ results before ∨ x ∈ announcedIds (before ++ [i])

/-- Whatever is used at module scope is declared or announced before, except that a parameter of a
function can be the length of an array. -/
def InOrderButLengths (m : Module) : Prop :=
  ∀ before i after, m.globals = before ++ i :: after → ∀ x ∈ i.refs,
    x ∈ results before ∨ x ∈ announcedIds (before ++ [i]) ∨ (i.IsLength x ∧ x ∈ m.parameterIds)

theorem completesPointers_of_answered {m : Module} (single : m.ids.Nodup)
    (h : Answered (fun _ _ => False) m.globals) : m.CompletesPointers := by
  intro before i after split op
  obtain ⟨x, storage, announces, none | ⟨mid, pointee, rest, later, struct⟩⟩ :=
    h before i after split op
  · exact none.elim
  have declared : (results m.globals).Nodup :=
    (nodup_append.1 (nodup_append.1 single).1).2.1
  have moved : (results m.globals).Perm (x :: results (before ++ i :: mid ++ rest)) := by
    have cut : m.globals = (before ++ i :: mid) ++ .pointerType x storage pointee :: rest := by
      simp [split, later]
    rw [cut, results_append, results_append (before ++ i :: mid) rest]
    exact perm_middle
  exact ⟨x, storage, mid, pointee, rest, announces, later,
    (nodup_cons.1 (moved.nodup_iff.1 declared)).1, struct⟩

end Module

namespace Program

variable {p : Program} {o : Options} {order : SetOrder} {out : Output}

theorem arranged_of_generate (h : p.generate o order = .ok out) : out.shader.ids.Nodup ∧
    Arranged (· ∈ out.shader.parameterIds) out.shader.globals ∧
      Answered (fun _ _ => False) out.shader.globals := by
  obtain ⟨s, ends, shader⟩ := exists_endsIn h
  -- functions may use everything here, so nothing is asked of the program
  obtain ⟨l, sound, hs, -, owed, -⟩ := ends.settled True (absurd trivial)
  obtain ⟨l', b', memoryModel, sound', -, owed', finish⟩ := sound.finish hs owed order
  have single : b'.output.ids.Nodup := by simpa [owed'] using sound'.distinct
  rw [shader, finish]
  exact ⟨single, sound'.order.arranged, sound'.order.settled owed'⟩

/-- In every module, the pointer types that are announced are declared, and declarations use what
stands before them. Only the length of an array can come from elsewhere. -/
theorem inOrder_of_generate (h : p.generate o order = .ok out) :
    out.shader.CompletesPointers ∧ out.shader.InOrderButLengths := by
  obtain ⟨single, arranged, answered⟩ := arranged_of_generate h
  exact ⟨Module.completesPointers_of_answered single answered, arranged⟩

/-- Two structures that refer to each other, and a variable that refers to one of them. -/
def linked : Program :=
  let reference (id : StructId) : ShaderType := { basic := .reference id }
  let stored : Qualifier :=
    { storage := .buffer, layout := { packing := .std430, bufferReference := true } }
  let pushed : Qualifier := { storage := .uniform, layout := { pushConstant := true } }
  { structs := [
      { name := "Even", members := [{ name := "next", type := reference 1 }], qualifier := stored },
      { name := "Odd", members := [{ name := "next", type := reference 0 }], qualifier := stored },
      { name := "Push", members := [{ name := "head", type := reference 0 }], qualifier := pushed }]
    symbols := [{ name := "push", type := { basic := .block 2, qualifier := pushed } }]
    globals := [0]
    functions := [{ name := "main", returnType := .void, body := [] }] }

theorem inOrder_of_generate_linked : ∃ out, linked.generate {} = .ok out ∧
    announcedIds out.shader.globals ≠ [] ∧
      out.shader.CompletesPointers ∧ out.shader.InOrderButLengths := by
  have made : (linked.generate {}).toOption.any fun out =>
      announcedIds out.shader.globals ≠ [] := by
    decide +kernel
  obtain ⟨out, h, some⟩ := exists_ok_of_any made
  exact ⟨out, h, of_decide_eq_true some, inOrder_of_generate h⟩

/-- The length of an array can come from a function. -/
theorem not_inOrder_of_generate :
    ∃ (p : Program) (o : Options) (out : Output), p.generate o = .ok out ∧
    ¬ out.shader.InOrder := by
  obtain ⟨out, h, f, hf, x, hx, i, hi, used⟩ := exists_generate_sized
  obtain ⟨single, -, answered⟩ := arranged_of_generate h
  have undeclared : x ∉ results out.shader.globals := by
    intro declared
    refine Module.not_mem_ownIds single ?_ hf hx
    exact mem_append_left _ (mem_append_right _ declared)
  refine ⟨sized, {}, out, h, fun inOrder => undeclared ?_⟩
  obtain ⟨before, after, split⟩ := append_of_mem hi
  rcases inOrder before i after split x used with declared | announced
  · simp [split, declared]
  · refine answered.mem_results ?_
    rw [split, ← singleton_append, ← append_assoc, announcedIds_append]
    exact mem_append_left _ announced

end Program

end ShaderGen
