import ShaderGen.Proofs.Control.Reachable
import ShaderGen.Proofs.Scope.Program

/-!
# Dominance

What a ledger promises to the blocks of a function has been kept on every way to them, so that
definitions dominate uses (`Function.Checks.definedBefore`). Together with what a ledger says about
the rest of a module, this makes the module one in static single assignment form: no id is defined
twice, every id that is used is defined, and what a function defines is used only there, and only
where its definition has been executed (`Module.Ssa`).

The one thing at module scope that can take an id from a function is an array type whose length is a
parameter, and there are programs that make it do so.
-/

namespace ShaderGen

open List

variable {block : Block} {x : Ident} {xs : List Ident} {f : Function} {i : Instruction}
  {before : List Instruction} {m : Module} {α : Type}

/-! ## Ways through a function -/

namespace Function

variable {f : Function}

/-- The ids that a function defines for itself. -/
def ownIds (f : Function) : List Ident :=
  f.parameters.map Parameter.id ++ f.blocks.flatMap Block.ids

theorem ids_eq (f : Function) : f.ids = f.id :: f.ownIds := by
  simp [ids, ownIds]

/-- A way that control can take from the first block, by the labels of the blocks, the last one
first. -/
inductive Path (f : Function) : List Ident → Prop
  | start {block : Block} (h : f.blocks.head? = some block) : Path f [block.label]
  | step {x y : Ident} {xs : List Ident} (path : Path f (x :: xs)) (h : f.Leads x y) :
    Path f (y :: x :: xs)

theorem CanReach.exists_path (h : f.CanReach x) : ∃ xs, f.Path (x :: xs) := by
  obtain ⟨first, hfirst, steps⟩ := h
  induction steps with
  | refl => exact ⟨[], .start hfirst⟩
  | tail _ leads ih =>
    obtain ⟨xs, path⟩ := ih
    exact ⟨_, path.step leads⟩

namespace Path

theorem suffix {ys : List Ident} (h : f.Path (xs ++ ys)) (nonempty : ys ≠ []) : f.Path ys := by
  induction xs with
  | nil => exact h
  | cons x xs ih =>
    refine ih ?_
    rw [cons_append] at h
    generalize xs ++ ys = zs, append_ne_nil_of_right_ne_nil xs nonempty = longer at h
    cases h with
    | start _ => exact absurd rfl longer
    | step path _ => exact path

theorem exists_first {x : Ident} {xs : List Ident} (h : f.Path (x :: xs)) :
    ∃ ys, f.Path (x :: ys) ∧ x ∉ ys := by
  by_cases again : x ∈ xs
  · obtain ⟨before, after, rfl⟩ := append_of_mem again
    rw [← cons_append] at h
    exact exists_first (suffix h (by simp))
  · exact ⟨xs, h, again⟩
termination_by xs.length
decreasing_by simp_all; omega

theorem mem_first (h : f.Path xs) (first : f.blocks.head? = some block) : block.label ∈ xs := by
  induction h with
  | start h =>
    cases h.symm.trans first
    exact mem_singleton_self _
  | step _ _ ih => exact mem_cons_of_mem _ ih

end Path

/-- Every way to the second block leads through the first. -/
def Dominates (f : Function) (x y : Ident) : Prop := ∀ xs, f.Path (y :: xs) → x ∈ y :: xs

/-- The id is defined by the time control comes to an instruction, whichever way it has taken: it is
a parameter, or it is defined by one of the instructions before it in its block, or in another block
that dominates this one. -/
def DefinedBefore (f : Function) (block : Block) (before : List Instruction) (x : Ident) : Prop :=
  x ∈ f.parameters.map Parameter.id ∨ x ∈ results before ∨
    ∃ d ∈ f.blocks, x ∈ results d.body ∧ d.label ≠ block.label ∧ f.Dominates d.label block.label

/-! ## Promises that have been kept -/

section Checks

variable {shared isLabel : Ident → Prop} {avail : Ident → Ident → Prop}

theorem Checks.defined_of_path (h : f.Checks shared avail isLabel) {y : Ident}
    (path : f.Path (y :: xs)) (hx : avail y x) :
    shared x ∨ x ∈ f.fixedIds ∨ ∃ d ∈ f.blocks, d.label ∈ xs ∧ x ∈ results d.body := by
  generalize whole : y :: xs = ys at path
  induction path generalizing y xs with
  | start first =>
    cases whole
    exact .inl (h.start _ first x hx)
  | step path leads ih =>
    cases whole
    obtain ⟨d, hd, rfl, target⟩ := leads
    obtain ⟨i, hi, hy⟩ := mem_flatMap.1 target
    obtain ⟨before, after, body⟩ := append_of_mem hi
    obtain ⟨k, hk⟩ := getElem?_of_mem hd
    rcases (h.body k d hk before i after body).targets _ hy x hx with known | fixed | asked | here
    · exact .inl known
    · exact .inr (.inl fixed)
    · refine (ih asked rfl).imp_right (Or.imp_right ?_)
      rintro ⟨e, he, label, defines⟩
      exact ⟨e, he, mem_cons_of_mem _ label, defines⟩
    · refine .inr (.inr ⟨d, hd, mem_cons_self, ?_⟩)
      rw [body, results_append]
      exact mem_append_left _ here

theorem eq_of_mem_ids (nodup : f.ids.Nodup) {d e : Block} (hd : d ∈ f.blocks) (he : e ∈ f.blocks)
    (hx : x ∈ d.ids) (hx' : x ∈ e.ids) : d = e := by
  have own : (f.blocks.flatMap Block.ids).Nodup := by
    rw [ids_eq] at nodup
    exact (nodup_append.1 (nodup_cons.1 nodup).2).2.1
  exact eq_of_nodup_flatMap own hd he hx hx'

theorem Checks.definedBefore (h : f.Checks shared avail isLabel) (nodup : f.ids.Nodup)
    (hblock : block ∈ f.blocks) (reach : f.CanReach block.label)
    (reaches : f.Reaches shared avail block.label before x) (own : ¬ shared x)
    (front : f.blocks.head? = some block → x ∈ results block.body → x ∈ results before) :
    f.DefinedBefore block before x := by
  have fixed : x ∈ f.fixedIds → f.DefinedBefore block before x := by
    intro hx
    rcases mem_append.1 hx with parameter | variable_
    · exact .inl parameter
    · obtain ⟨first, hfirst⟩ : ∃ first, f.blocks.head? = some first := by
        cases hblocks : f.blocks with
        | nil => simp [hblocks] at hblock
        | cons first rest => exact ⟨first, rfl⟩
      have hx : x ∈ results first.body := by simpa [hfirst] using variable_
      by_cases same : first = block
      · subst same
        exact .inr (.inl (front hfirst hx))
      · have inside : first ∈ f.blocks := mem_of_head? hfirst
        refine .inr (.inr ⟨first, inside, hx, fun label => same ?_, fun xs path =>
          path.mem_first hfirst⟩)
        exact eq_of_mem_ids nodup inside hblock (x := first.label) (by simp [Block.ids])
          (by simp [Block.ids, label])
  rcases reaches with known | hx | asked | here
  · exact absurd known own
  · exact fixed hx
  · by_cases hx : x ∈ f.fixedIds
    · exact fixed hx
    · have onPath : ∀ xs, f.Path (block.label :: xs) →
          ∃ d ∈ f.blocks, d.label ∈ xs ∧ x ∈ results d.body := by
        intro xs path
        rcases h.defined_of_path path asked with known | fixed | defined
        · exact absurd known own
        · exact absurd fixed hx
        · exact defined
      obtain ⟨xs, path⟩ := reach.exists_path
      obtain ⟨ys, path, new⟩ := path.exists_first
      obtain ⟨d, hd, label, defines⟩ := onPath ys path
      refine .inr (.inr ⟨d, hd, defines, fun same => new (same ▸ label), fun zs path => ?_⟩)
      -- All ways meet a block that defines the id, and there is only one.
      obtain ⟨e, he, label, defines'⟩ := onPath zs path
      have same : e = d := eq_of_mem_ids nodup he hd (x := x) (mem_cons_of_mem _ defines')
        (mem_cons_of_mem _ defines)
      exact mem_cons_of_mem _ (same ▸ label)
  · exact .inr (.inl here)

end Checks

/-- The ids that a function uses. -/
def usedIds (f : Function) : List Ident :=
  f.returnType :: f.type :: f.parameters.map Parameter.type ++
    f.blocks.flatMap fun block => block.body.flatMap Instruction.refs

end Function

/-! ## Modules in static single assignment form -/

namespace Module

/-- The ids of a module that do not belong to a function. -/
def sharedIds (m : Module) : List Ident :=
  m.imports.map Prod.fst ++ results m.globals ++ m.functions.map Function.id

/-- All ids that a module uses. -/
def usedIds (m : Module) : List Ident :=
  m.rootIds ++ m.names.map DebugName.target ++
    m.annotations.flatMap (fun a => a.target :: Operand.ids a.argument.toList) ++
    m.globals.flatMap Instruction.refs ++ m.functions.flatMap Function.usedIds

/-- Static single assignment: every id is defined once, what a function defines is used by that
function alone, and definitions dominate uses. What a joining instruction takes from a block is used
at the end of that block. -/
structure Ssa (m : Module) : Prop where
  single : m.ids.Nodup
  defined : ∀ x ∈ m.usedIds, x ∈ m.ids
  enclosed : ∀ f ∈ m.functions, ∀ x ∈ f.ownIds, x ∉ m.rootIds ∧
    ∀ g ∈ m.functions, x ∈ g.usedIds → g = f
  dominated : ∀ f ∈ m.functions, ∀ block ∈ f.blocks, f.CanReach block.label →
    ∀ before i after, block.body = before ++ i :: after →
      ∀ x ∈ i.valueIds, x ∈ f.ownIds → f.DefinedBefore block before x
  joined : ∀ f ∈ m.functions, ∀ block ∈ f.blocks, ∀ i ∈ block.body, ∀ q ∈ i.incoming,
    q.1 ∈ f.ownIds → ∃ source ∈ f.blocks, source.label = q.2 ∧
      (f.CanReach source.label → f.DefinedBefore source source.body q.1)

/-- Nothing at module scope uses what a function defines. -/
def Closed (m : Module) : Prop :=
  ∀ f ∈ m.functions, ∀ x ∈ f.ownIds, ∀ i ∈ m.globals, x ∉ i.refs

/-- Nothing at module scope uses what a function defines, except that a parameter can be the length
of an array. -/
def ClosedButLengths (m : Module) : Prop :=
  ∀ f ∈ m.functions, ∀ x ∈ f.ownIds, ∀ i ∈ m.globals, x ∈ i.refs →
    i.IsLength x ∧ x ∈ f.parameters.map Parameter.id

theorem perm_ids (m : Module) :
    m.ids.Perm (m.sharedIds ++ m.functions.flatMap Function.ownIds) := by
  have split : ∀ fs : List Function, (fs.flatMap Function.ids).Perm
      (fs.map Function.id ++ fs.flatMap Function.ownIds) := by
    intro fs
    induction fs with
    | nil => exact .refl _
    | cons f fs ih =>
      rw [perm_iff_count] at ih ⊢
      intro x
      have := ih x
      simp only [flatMap_cons, map_cons, Function.ids_eq, count_append, count_cons] at this ⊢
      omega
  rw [ids, sharedIds, append_assoc _ (m.functions.map Function.id)]
  exact (split m.functions).append_left _

variable {m : Module}

theorem not_mem_ownIds (h : m.ids.Nodup) (hx : x ∈ m.sharedIds)
    (hf : f ∈ m.functions) : x ∉ f.ownIds := by
  have apart := (nodup_append.1 (m.perm_ids.nodup_iff.1 h)).2.2
  exact fun own => apart x hx x (mem_flatMap.2 ⟨f, hf, own⟩) rfl

theorem eq_of_mem_ownIds (h : m.ids.Nodup) {g : Function} (hf : f ∈ m.functions)
    (hg : g ∈ m.functions) (hx : x ∈ f.ownIds) (hx' : x ∈ g.ownIds) : f = g := by
  have own := (nodup_append.1 (m.perm_ids.nodup_iff.1 h)).2.1
  exact eq_of_nodup_flatMap own hf hg hx hx'

theorem nodup_ids_of_mem (h : m.ids.Nodup) (hf : f ∈ m.functions) : f.ids.Nodup :=
  (nodup_flatMap.1 (nodup_append.1 h).2.1).1 f hf

theorem mem_ids_of_mem_sharedIds (h : x ∈ m.sharedIds) : x ∈ m.ids :=
  m.perm_ids.mem_iff.2 (mem_append_left _ h)

theorem mem_ids_of_mem_ownIds (hf : f ∈ m.functions) (h : x ∈ f.ownIds) : x ∈ m.ids :=
  m.perm_ids.mem_iff.2 (mem_append_right _ (mem_flatMap.2 ⟨f, hf, h⟩))

end Module

theorem mem_pairUp {list : List α} {a : α} (h : a ∈ list) :
    (∃ q ∈ pairUp list, a = q.1) ∨ ∃ q ∈ pairUp list, a = q.2 := by
  induction list using pairUp.induct with
  | case1 b c rest ih =>
    simp only [pairUp, mem_cons] at h ⊢
    rcases h with rfl | rfl | h
    · exact .inl ⟨_, .inl rfl, rfl⟩
    · exact .inr ⟨_, .inl rfl, rfl⟩
    · rcases ih h with ⟨q, hq, same⟩ | ⟨q, hq, same⟩
      · exact .inl ⟨q, .inr hq, same⟩
      · exact .inr ⟨q, .inr hq, same⟩
  | case2 b => exact .inl ⟨(b, b), by simp [pairUp], by simpa using h⟩
  | case3 => cases h

theorem Instruction.mem_refs (h : x ∈ i.refs) :
    x ∈ i.valueIds ∨ x ∈ i.labelIds ∨ ∃ q ∈ i.incoming, x = q.1 := by
  rcases mem_append.1 h with type | operand
  · exact .inl (mem_append_left _ type)
  · have cut : ∀ n, x ∈ i.ids → x ∈ i.ids.take n ∨ x ∈ i.ids.drop n := fun n hx => by
      rwa [← mem_append, take_append_drop]
    unfold valueIds labelIds incoming
    split
    all_goals first
      | exact .inl (mem_append_right _ operand)
      | (rename_i op; simp only [op]; grind [mem_pairUp])

/-! ## Ledgers in which nothing is owed -/

namespace Function

variable {f : Function} {shared isLabel : Ident → Prop} {avail : Ident → Ident → Prop}

theorem Reaches.own (asks : f.Asks shared avail) (hblock : block ∈ f.blocks)
    {after : List Instruction} (body : block.body = before ++ after) {label : Ident}
    (h : f.Reaches shared avail label before x) : shared x ∨ x ∈ f.ids := by
  rcases h with known | fixed | asked | here
  · exact .inl known
  · exact .inr (f.fixedIds_subset_ids fixed)
  · exact asks label x asked
  · have inside : x ∈ results block.body := by
      rw [body, results_append]
      exact mem_append_left _ here
    exact .inr (mem_append_right _ (mem_flatMap.2 ⟨block, hblock, by simp [Block.ids, inside]⟩))

theorem Checks.own (h : f.Checks shared avail (· ∈ f.labels)) (asks : f.Asks shared avail)
    (hblock : block ∈ f.blocks) (hi : i ∈ block.body) (hx : x ∈ i.refs) : shared x ∨ x ∈ f.ids := by
  obtain ⟨k, hk⟩ := getElem?_of_mem hblock
  obtain ⟨before, after, body⟩ := append_of_mem hi
  rcases Instruction.mem_refs hx with value | label | ⟨q, hq, rfl⟩
  · exact ((h.body k block hk before i after body).values x value).own asks hblock body
  · obtain ⟨target, htarget, rfl⟩ :=
      mem_map.1 ((h.body k block hk before i after body).labels x label)
    exact .inr (mem_append_right _ (mem_flatMap.2 ⟨target, htarget, by simp [Block.ids]⟩))
  · obtain ⟨j, source, hsource, -, reaches⟩ := h.joins k block hk i hi q hq
    exact reaches.own asks (mem_of_getElem? hsource) (append_nil _).symm

end Function

namespace Builder

variable {l : Ledger} {b : Builder}

theorem Shared.mem_sharedIds (watched : ¬ l.free) (owed : l.owed = []) (h : b.Shared l x) :
    x ∈ b.output.sharedIds := by
  simpa [Shared, Module.sharedIds, owed, watched, or_assoc] using h

theorem Placed.mem_ids (owed : l.owed = []) (h : b.Placed l x) : x ∈ b.output.ids := by
  simpa [Placed, owed] using h

theorem Sound.ssa (sound : b.Sound l) (watched : ¬ l.free) (owed : l.owed = [])
    (outside : b.inFunction = false) : b.output.Ssa ∧ b.output.ClosedButLengths := by
  have single : b.output.ids.Nodup := by simpa [owed] using sound.distinct
  have declared : ∀ i ∈ b.output.globals, ∀ x ∈ i.refs, x ∈ results b.output.globals ∨
      (i.IsLength x ∧ x ∈ b.output.parameterIds) := fun i hi x hx =>
    sound.order.arranged.mem_results (sound.order.settled owed) hi hx
  have complete : ∀ f ∈ b.output.functions, ∃ avail, f.Checks (b.Shared l) avail (· ∈ f.labels) ∧
      f.Asks (b.Shared l) avail := by
    intro f hf
    exact sound.finished f (by simpa [Builder.finished, outside] using hf)
  have own : ∀ f ∈ b.output.functions, ∀ x ∈ f.usedIds, x ∈ b.output.sharedIds ∨ x ∈ f.ownIds := by
    intro f hf x hx
    rcases mem_append.1 hx with head | inner
    · exact .inl ((sound.heads f hf x head).mem_sharedIds watched owed)
    · obtain ⟨block, hblock, hx⟩ := mem_flatMap.1 inner
      obtain ⟨i, hi, hx⟩ := mem_flatMap.1 hx
      obtain ⟨avail, checks, asks⟩ := complete f hf
      rcases checks.own asks hblock hi hx with shared | inside
      · exact .inl (shared.mem_sharedIds watched owed)
      · rw [Function.ids_eq] at inside
        rcases mem_cons.1 inside with rfl | inside
        · exact .inl (mem_append_right _ (mem_map_of_mem hf))
        · exact .inr inside
  have private_ : ∀ f ∈ b.output.functions, ∀ x ∈ f.ownIds, ¬ b.Shared l x :=
    fun f hf x hx shared =>
    Module.not_mem_ownIds single (shared.mem_sharedIds watched owed) hf hx
  refine ⟨⟨single, ?_, ?_, ?_, ?_⟩, ?_⟩
  · intro x hx
    simp only [Module.usedIds, mem_append, or_assoc] at hx
    rcases hx with root | name | annotation | global | inner
    · exact Module.mem_ids_of_mem_sharedIds ((sound.roots x root).mem_sharedIds watched owed)
    · obtain ⟨n, hn, rfl⟩ := mem_map.1 name
      exact (sound.named n hn).mem_ids owed
    · obtain ⟨a, ha, hx⟩ := mem_flatMap.1 annotation
      obtain ⟨target, noIds⟩ := sound.annotated a ha
      rw [noIds, mem_singleton] at hx
      exact hx ▸ target.mem_ids owed
    · obtain ⟨i, hi, hx⟩ := mem_flatMap.1 global
      rcases declared i hi x hx with result | ⟨-, parameter⟩
      · exact Module.mem_ids_of_mem_sharedIds (by simp [Module.sharedIds, result])
      · obtain ⟨f, hf, hx⟩ := mem_flatMap.1 parameter
        exact Module.mem_ids_of_mem_ownIds hf (mem_append_left _ hx)
    · obtain ⟨f, hf, hx⟩ := mem_flatMap.1 inner
      exact (own f hf x hx).elim Module.mem_ids_of_mem_sharedIds (Module.mem_ids_of_mem_ownIds hf)
  · intro f hf x hx
    refine ⟨fun root => private_ f hf x hx (sound.roots x root), fun g hg used => ?_⟩
    rcases own g hg x used with shared | inside
    · exact absurd hx (Module.not_mem_ownIds single shared hf)
    · exact Module.eq_of_mem_ownIds single hg hf inside hx
  · intro f hf block hblock reach before i after body x hx inside
    obtain ⟨avail, checks, -⟩ := complete f hf
    obtain ⟨k, hk⟩ := getElem?_of_mem hblock
    refine checks.definedBefore (Module.nodup_ids_of_mem single hf) hblock reach
      ((checks.body k block hk before i after body).values x hx) (private_ f hf x inside) ?_
    intro first _
    have shared := checks.front block first i (by simp [body]) x hx
    exact absurd shared (private_ f hf x inside)
  · intro f hf block hblock i hi q hq inside
    obtain ⟨avail, checks, -⟩ := complete f hf
    obtain ⟨k, hk⟩ := getElem?_of_mem hblock
    obtain ⟨j, source, hsource, label, reaches⟩ := checks.joins k block hk i hi q hq
    have hsource := mem_of_getElem? hsource
    refine ⟨source, hsource, label, fun reach => ?_⟩
    exact checks.definedBefore (Module.nodup_ids_of_mem single hf) hsource reach reaches
      (private_ f hf q.1 inside) fun _ => id
  · intro f hf x hx i hi used
    rcases declared i hi x used with result | ⟨length, parameter⟩
    · exact absurd (.inr (.inl result)) (private_ f hf x hx)
    · refine ⟨length, ?_⟩
      obtain ⟨g, hg, hparameter⟩ := mem_flatMap.1 parameter
      have same : f = g := Module.eq_of_mem_ownIds single hf hg hx (mem_append_left _ hparameter)
      exact same ▸ hparameter

end Builder

/-! ## The finished module -/

theorem mem_of_mem_foldl_keep (skip : List α → α → Prop)
    [∀ kept a, Decidable (skip kept a)] {list init : List α} {a : α}
    (h : a ∈ list.foldl (fun kept a => if skip kept a then kept else kept ++ [a]) init) :
    a ∈ init ∨ a ∈ list := by
  induction list generalizing init with
  | nil => exact .inl h
  | cons c rest ih =>
    rcases ih h with old | later
    · dsimp only at old
      split at old
      · exact .inl old
      · rcases mem_append.1 old with old | new
        · exact .inl old
        · exact .inr (mem_cons.2 (.inl (mem_singleton.1 new)))
    · exact .inr (mem_cons_of_mem _ later)

theorem Module.Ssa.trim {n : Module} (h : m.Ssa) (imports : n.imports = m.imports)
    (globals : n.globals = m.globals) (functions : n.functions = m.functions)
    (roots : n.rootIds = m.rootIds) (names : ∀ d ∈ n.names, d ∈ m.names)
    (annotations : ∀ a ∈ n.annotations, a ∈ m.annotations) : n.Ssa := by
  have ids : n.ids = m.ids := by rw [Module.ids, imports, globals, functions, Module.ids]
  constructor
  · exact ids ▸ h.single
  · intro x hx
    rw [ids]
    refine h.defined x ?_
    simp only [usedIds, mem_append, or_assoc, roots, globals, functions] at hx ⊢
    rcases hx with root | name | annotation | rest
    · exact .inl root
    · obtain ⟨d, hd, rfl⟩ := mem_map.1 name
      exact .inr (.inl (mem_map_of_mem (names d hd)))
    · obtain ⟨a, ha, hx⟩ := mem_flatMap.1 annotation
      exact .inr (.inr (.inl (mem_flatMap.2 ⟨a, annotations a ha, hx⟩)))
    · exact .inr (.inr (.inr rest))
  · rw [functions, roots]
    exact h.enclosed
  · rw [functions]
    exact h.dominated
  · rw [functions]
    exact h.joined

theorem Module.Ssa.finish (h : m.Ssa) (memoryModel : Option (AddressingModel × MemoryModel)) :
    ({ m with memoryModel }.withoutRepeats).Ssa :=
  h.trim rfl rfl rfl rfl (fun _ hd => (mem_of_mem_foldl_keep _ hd).resolve_left (by simp))
    fun _ ha => (mem_of_mem_foldl_keep _ ha).resolve_left (by simp)

theorem Builder.ssa_finish {b : Builder} {l : Ledger} (sound : b.Sound l) (hs : l.strict)
    (watched : ¬ l.free) (owed : l.owed = []) (outside : b.inFunction = false) (order : SetOrder) :
    (b.finish order).Ssa ∧ (b.finish order).ClosedButLengths := by
  obtain ⟨l', b', memoryModel, sound', grows, owed', finish⟩ := sound.finish hs owed order
  obtain ⟨ssa, closed⟩ := sound'.ssa (grows.free ▸ watched) owed' (grows.inFunction.trans outside)
  rw [finish]
  exact ⟨ssa.finish _, closed⟩

namespace Program

variable {p : Program} {o : Options} {order : SetOrder} {out : Output}

/-- The module of a program whose functions share no variables is in static single assignment form.
At module scope, nothing of a function is used but a parameter as the length of an array. -/
theorem ssa_of_generate (separates : p.Separates) (h : p.generate o order = .ok out) :
    out.shader.Ssa ∧ out.shader.ClosedButLengths := by
  obtain ⟨s, ends, shader⟩ := exists_endsIn h
  obtain ⟨l, sound, hs, free, owed, outside⟩ := ends.settled False fun _ => separates
  rw [shader]
  exact Builder.ssa_finish sound hs (by simp [free]) owed outside order

/-- A function with an array as long as its parameter says. -/
def sized : Program :=
  let void : Info := { type := .void }
  { symbols := [
      { name := "n", type := { basic := .int 32, qualifier := { storage := .paramConst } } },
      { name := "a", type := { basic := .float 32, arrays := [.spec 0] } }]
    functions := [
      { name := "f", returnType := .void, parameters := [0], body := [.declare void 1 none] },
      { name := "main", returnType := .void
        body := [.call void 0 [.constant { type := .int 32 } (.int 3)]] }]
    entry := 1 }

theorem separates_sized : sized.Separates where
  listed x d hd storage := by
    match x with
    | 0 | 1 =>
      cases hd
      cases storage
    | n + 2 => cases hd
  apart f g x hf hg _ := by
    match f, g with
    | 0, 0 | 1, 1 => rfl
    | 0, 1 | 1, 0 => simp [symbolsOf, function?, sized, prelude, allSymbols, Node.symbols] at hf hg
    | n + 2, _ => simp [symbolsOf, function?, sized] at hf
    | _, n + 2 => simp [symbolsOf, function?, sized] at hg

theorem exists_generate_sized : ∃ out, sized.generate {} = .ok out ∧
    ∃ f ∈ out.shader.functions, ∃ x ∈ f.ownIds, ∃ i ∈ out.shader.globals, x ∈ i.refs := by
  have made : (sized.generate {}).toOption.any fun out =>
      out.shader.functions.any fun f => f.ownIds.any fun x =>
        out.shader.globals.any fun i => i.refs.contains x := by
    decide +kernel
  obtain ⟨out, h, some⟩ := exists_ok_of_any made
  exact ⟨out, h, by simpa using some⟩

theorem ssa_of_generate_sized :
    ∃ out, sized.generate {} = .ok out ∧ out.shader.Ssa ∧ out.shader.ClosedButLengths := by
  obtain ⟨out, h, -⟩ := exists_generate_sized
  exact ⟨out, h, ssa_of_generate separates_sized h⟩

/-- The length of an array is not kept from the parameters of a function. -/
theorem not_closed_of_generate :
    ∃ (p : Program) (o : Options) (out : Output), p.Separates ∧ p.generate o = .ok out ∧
      ¬ out.shader.Closed := by
  obtain ⟨out, h, f, hf, x, hx, i, hi, used⟩ := exists_generate_sized
  exact ⟨sized, {}, out, separates_sized, h, fun closed => closed f hf x hx i hi used⟩

end Program

end ShaderGen
