import Mathlib.Data.List.Nodup
import Mathlib.Order.Bounds.Basic
import ShaderGen.Proofs.Generation.Order
import ShaderGen.Source.Reach

/-!
# The search for functions

`Program.reachable` is closed under calls (`Program.reachable_closed`): the search never runs out of
fuel, as each round of it finds a function of the program that it has not found before. The calls
that the code for a function makes are among those that the search follows
(`Program.orderOf_subset`). Since the search adds only what is called, it finds the least set of
functions that is closed under calls (`Program.reachable_least`).
-/

namespace ShaderGen

open List Node

variable {f : FunctionId}

theorem Node.mem_callOrder : (∀ n : Node, f ∈ n.callOrder ↔ f ∈ n.calls) ∧
    (∀ n : Option Node, f ∈ optionalCallOrder n ↔ f ∈ optionalCalls n) ∧
    ∀ nodes : List Node, f ∈ callOrders nodes ↔ f ∈ allCalls nodes := by
  apply Node.calls.mutual_induct <;> intros
  case case12 => grind [calls, callOrder]
  all_goals simp [calls, callOrder, allCalls, callOrders, optionalCalls, optionalCallOrder, *]

namespace Program

variable {p : Program}

/-- The functions that the code for a function calls. -/
def orderOf (p : Program) (f : FunctionId) : List FunctionId :=
  ((p.function? f).map fun d => callOrders (p.prelude f ++ d.body)).getD []

/-- The functions of the program that have not been found. -/
def unseen (p : Program) (found : List FunctionId) : List FunctionId :=
  (range p.functions.length).filter (· ∉ found)

/-- Whatever has been found anew has been found with all that it calls. -/
structure Explored (p : Program) (found all : List FunctionId) : Prop where
  keeps : found ⊆ all
  closed : ∀ g ∈ all, g ∉ found → p.callees g ⊆ all

variable {found middle all : List FunctionId} {f g : FunctionId} {fuel : Nat}

theorem Explored.refl (found : List FunctionId) : p.Explored found found :=
  ⟨List.Subset.refl _, fun _ mem new => absurd mem new⟩

theorem Explored.trans (h : p.Explored found middle) (k : p.Explored middle all) :
    p.Explored found all where
  keeps := List.Subset.trans h.keeps k.keeps
  closed g mem new := by
    by_cases early : g ∈ middle
    · exact List.Subset.trans (h.closed g early new) k.keeps
    · exact k.closed g mem early

theorem Explored.cons (h : p.Explored (found ++ [f]) all) (called : p.callees f ⊆ all) :
    p.Explored found all where
  keeps := List.Subset.trans (subset_append_left _ _) h.keeps
  closed g mem new := by
    by_cases same : g = f
    · rwa [same]
    · exact h.closed g mem (by simp [new, same])

theorem callees_eq_nil (h : f ∉ p.unseen found) (new : f ∉ found) : p.callees f = [] := by
  have outside : p.functions.length ≤ f := by simpa [unseen, new] using h
  simp [callees, function?, outside]

theorem unseen_append (h : f ∈ p.unseen found) :
    (p.unseen (found ++ [f])).length < (p.unseen found).length := by
  have part : p.unseen (found ++ [f]) = (p.unseen found).filter (· ≠ f) := by
    simp [unseen, filter_filter, not_or, and_comm]
  rw [part]
  exact length_filter_lt_length_iff_exists.2 ⟨f, h, by simp⟩

theorem Explored.unseen_le (h : p.Explored found all) :
    (p.unseen all).length ≤ (p.unseen found).length := by
  refine (monotone_filter_right _ fun f new => ?_).length_le
  simp only [decide_eq_true_eq] at new ⊢
  exact fun old => new (h.keeps old)

theorem explored_foldl {search : List FunctionId → FunctionId → List FunctionId}
    (each : ∀ found f, (p.unseen found).length ≤ fuel →
      p.Explored found (search found f) ∧ f ∈ search found f)
    (enough : (p.unseen found).length ≤ fuel) (functions : List FunctionId) :
    p.Explored found (functions.foldl search found) ∧ functions ⊆ functions.foldl search found := by
  induction functions generalizing found with
  | nil => exact ⟨.refl _, nil_subset _⟩
  | cons f rest ih =>
    obtain ⟨first, reached⟩ := each found f enough
    obtain ⟨others, reached'⟩ := ih (Nat.le_trans first.unseen_le enough)
    exact ⟨first.trans others, cons_subset.2 ⟨others.keeps reached, reached'⟩⟩

/-- The fuel of a search is enough if there is some for each function that has not been found. -/
theorem explored_explore (enough : (p.unseen found).length ≤ fuel) :
    p.Explored found (p.explore fuel found f) ∧ f ∈ p.explore fuel found f := by
  induction fuel generalizing found f with
  | zero =>
    have nothing : p.unseen found = [] := eq_nil_of_length_eq_zero (Nat.le_zero.1 enough)
    rw [explore, insertNew]
    split
    · exact ⟨.refl _, contains_iff_mem.1 ‹_›⟩
    · have new : f ∉ found := fun mem => ‹¬ _› (contains_iff_mem.2 mem)
      have leaf := callees_eq_nil (p := p) (by simp [nothing]) new
      exact ⟨(Explored.refl _).cons (by simp [leaf]), by simp⟩
  | succ fuel ih =>
    rw [explore]
    split
    · exact ⟨.refl _, contains_iff_mem.1 ‹_›⟩
    · have new : f ∉ found := fun mem => ‹¬ _› (contains_iff_mem.2 mem)
      by_cases defined : f ∈ p.unseen found
      · have less : (p.unseen (found ++ [f])).length ≤ fuel := by
          have := unseen_append defined
          omega
        obtain ⟨explored, called⟩ := explored_foldl (p := p) (fun _ _ => ih) less (p.callees f)
        exact ⟨explored.cons called, explored.keeps (by simp)⟩
      · have leaf := callees_eq_nil defined new
        simp only [leaf, foldl_nil]
        exact ⟨(Explored.refl _).cons (by simp [leaf]), by simp⟩

theorem explored_reachable (p : Program) : p.Explored [p.entry] p.reachable ∧
      allCalls p.initializers ++ p.callees p.entry ⊆ p.reachable := by
  have enough : (p.unseen [p.entry]).length ≤ p.functions.length :=
    Nat.le_trans (length_filter_le _ _) (by simp)
  exact explored_foldl (fun _ _ => explored_explore) enough _

theorem reachable_closed (h : f ∈ p.reachable) : p.callees f ⊆ p.reachable := by
  obtain ⟨explored, called⟩ := p.explored_reachable
  by_cases entry : f = p.entry
  · rw [entry]
    exact List.Subset.trans (subset_append_right _ _) called
  · exact explored.closed f h (by simpa using entry)

theorem orderOf_subset (h : f ∈ p.reachable) : p.orderOf f ⊆ p.reachable := by
  intro g mem
  have followed : g ∈ allCalls (p.prelude f) ∨ g ∈ p.callees f := by
    unfold orderOf callees at *
    cases found : p.function? f with
    | none => simp [found] at mem
    | some d =>
      have mem : g ∈ callOrders (p.prelude f) ++ callOrders d.body := by
        simpa [found, callOrders_eq] using mem
      exact (mem_append.1 mem).imp (mem_callOrder.2.2 _).1 (mem_callOrder.2.2 d.body).1
  rcases followed with initial | called
  · have whole : g ∈ allCalls p.initializers := by
      unfold prelude at initial
      split at initial
      · exact initial
      · cases initial
    exact p.explored_reachable.2 (mem_append_left _ whole)
  · exact reachable_closed h called

end Program

/-! ## The least set that is closed under calls -/

/-- The nodes directly below a node. -/
def Node.children : Node → List Node
  | .symbol .. | .constant .. => []
  | .binary _ _ left right => [left, right]
  | .unary _ _ operand | .swizzle _ operand _ => [operand]
  | .sequence _ nodes | .construct _ nodes | .intrinsic _ _ nodes | .call _ _ nodes => nodes
  | .select _ condition thenBranch elseBranch _ _ =>
      condition :: (thenBranch.toList ++ elseBranch.toList)
  | .switch _ selector body _ => selector :: body
  | .loop _ test body terminal _ _ => test.toList ++ (body.toList ++ terminal.toList)
  | .jump _ _ value | .declare _ _ value => value.toList

/-- The function is called somewhere in the node. -/
inductive Node.Mentions (f : FunctionId) : Node → Prop
  | here (info : Info) (arguments : List Node) : Mentions f (.call info f arguments)
  | deeper {n child : Node} (mem : child ∈ n.children) (h : Mentions f child) : Mentions f n

theorem Node.mentions_iff {n : Node} :
    n.Mentions f ↔ (∃ info arguments, n = .call info f arguments) ∨
    ∃ child ∈ n.children, child.Mentions f := by
  constructor
  · rintro (⟨info, arguments⟩ | ⟨mem, deeper⟩)
    · exact .inl ⟨info, arguments, rfl⟩
    · exact .inr ⟨_, mem, deeper⟩
  · rintro (⟨info, arguments, rfl⟩ | ⟨child, mem, deeper⟩)
    · exact .here info arguments
    · exact .deeper mem deeper

theorem Node.mem_calls : (∀ n : Node, f ∈ n.calls ↔ n.Mentions f) ∧
    (∀ n : Option Node, f ∈ optionalCalls n ↔ ∃ m ∈ n.toList, m.Mentions f) ∧
    ∀ nodes : List Node, f ∈ allCalls nodes ↔ ∃ n ∈ nodes, n.Mentions f := by
  apply Node.calls.mutual_induct <;> intros
  case case15 | case16 | case17 | case18 => simp [allCalls, optionalCalls, *]
  all_goals
    rw [mentions_iff]
    simp [calls, children, *, or_and_right, exists_or, or_comm, eq_comm]

namespace Program

variable {p : Program}

/-- The entry function is in the set, with all that the initializers call, and the set is closed
under what is called in the body of a member. -/
structure ClosedUnderCalls (p : Program) (fs : Set FunctionId) : Prop where
  entry : p.entry ∈ fs
  initial : ∀ n ∈ p.initializers, ∀ f, n.Mentions f → f ∈ fs
  body : ∀ g ∈ fs, ∀ d, p.function? g = some d → ∀ n ∈ d.body, ∀ f, n.Mentions f → f ∈ fs

theorem mem_callees {g : FunctionId} :
    f ∈ p.callees g ↔ ∃ d, p.function? g = some d ∧ ∃ n ∈ d.body, n.Mentions f := by
  unfold callees
  cases p.function? g with
  | none => simp
  | some d => simp [mem_calls.2.2]

/-- What stays true when a function is added that is new and that may be added, is true after a
search. -/
theorem explore_induction (good : FunctionId → Prop) (holds : List FunctionId → Prop)
    (callees : ∀ f, good f → ∀ g ∈ p.callees f, good g)
    (push : ∀ found f, holds found → f ∉ found → good f → holds (found ++ [f])) (fuel : Nat)
    {found : List FunctionId} (h : holds found) (hf : good f) : holds (p.explore fuel found f) := by
  induction fuel generalizing found f with
  | zero =>
    rw [explore, insertNew]
    split
    · exact h
    · exact push found f h (fun mem => ‹¬ _› (contains_iff_mem.2 mem)) hf
  | succ fuel ih =>
    rw [explore]
    split
    · exact h
    · have pushed := push found f h (fun mem => ‹¬ _› (contains_iff_mem.2 mem)) hf
      exact foldlRecOn (motive := holds) (p.callees f) _ pushed fun found h g mem =>
        ih h (callees f hf g mem)

/-- The functions that can come to run, the entry function first and each function once, are the
least set that is closed under calls. -/
theorem reachable_least (p : Program) :
    p.reachable.Nodup ∧ p.reachable.head? = some p.entry ∧
      IsLeast {fs : Set FunctionId | p.ClosedUnderCalls fs} {f | f ∈ p.reachable} := by
  have found : ∀ fs, p.ClosedUnderCalls fs →
      p.reachable.Nodup ∧ p.reachable.head? = some p.entry ∧ ∀ f ∈ p.reachable, f ∈ fs := by
    intro fs closed
    have called : ∀ f ∈ fs, ∀ g ∈ p.callees f, g ∈ fs := fun f mem g call => by
      obtain ⟨d, defined, n, inside, mentions⟩ := mem_callees.1 call
      exact closed.body f mem d defined n inside g mentions
    let Fine (found : List FunctionId) : Prop :=
      found.Nodup ∧ found.head? = some p.entry ∧ ∀ f ∈ found, f ∈ fs
    refine foldlRecOn (motive := Fine) _ _ ?_ fun found h f mem => ?_
    · simp [Fine, closed.entry]
    · refine explore_induction (· ∈ fs) Fine called (fun found g h new hg => ?_) _ h ?_
      · refine ⟨by simpa using List.Nodup.concat new h.1, ?_, ?_⟩
        · rw [head?_append, h.2.1, Option.some_or]
        · simpa [or_imp, forall_and, hg] using h.2.2
      · rcases mem_append.1 mem with initial | call
        · obtain ⟨n, inside, mentions⟩ := (mem_calls.2.2 _).1 initial
          exact closed.initial n inside f mentions
        · exact called p.entry closed.entry f call
  obtain ⟨explored, initial⟩ := p.explored_reachable
  have least : p.ClosedUnderCalls {f | f ∈ p.reachable} := by
    refine ⟨explored.keeps mem_cons_self, fun n inside f mentions => ?_, ?_⟩
    · exact initial (mem_append_left _ ((mem_calls.2.2 _).2 ⟨n, inside, mentions⟩))
    · exact fun g mem d defined n inside f mentions =>
        reachable_closed mem (mem_callees.2 ⟨d, defined, n, inside, mentions⟩)
  obtain ⟨nodup, head, -⟩ := found _ least
  exact ⟨nodup, head, least, fun fs closed f mem => (found fs closed).2.2 f mem⟩

end Program

end ShaderGen
