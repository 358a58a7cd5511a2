import ShaderGen.Codegen.Loop

/-!
# How statements are executed

A `Flow` is what is left of a statement when only its control flow matters: what it executes and
evaluates on the way are leaves of any type. `Flow.run` executes it. The conditions and selectors
are not computed but decided by a sequence of words, one for each evaluation, so that what is shown
for all sequences holds whatever the values are. `Node.flow` gives the flow of a statement of a
program, whose leaves are nodes.
-/

namespace ShaderGen

/-! ## Flows -/

mutual

/-- The control flow of a statement. -/
inductive Flow (α : Type)
  | skip
  | leaf (statement : α)
  /-- A statement that ends the function or the invocation. -/
  | stop (statement : α)
  /-- Leaves the innermost loop or switch. -/
  | leave
  /-- Goes on with the next round of the innermost loop. -/
  | next
  | seq (first second : Flow α)
  | branch (condition : α) (thenBranch elseBranch : Flow α)
  | loop (test : Option α) (testFirst : Bool) (body terminal : Flow α)
  | switch (selector : α) (wide : Bool) (body : Cases α)

/-- The body of a switch: statements with labels among them. -/
inductive Cases (α : Type)
  | nil
  | label (l : Jump) (rest : Cases α)
  | step (statement : Flow α) (rest : Cases α)

end

/-- The body without the statements in front of all labels, which can never run. -/
def Cases.trim {α : Type} : Cases α → Cases α
  | .step _ rest => rest.trim
  | body => body

section Map

variable {α β : Type}

mutual

/-- The flow with other leaves. -/
def Flow.map (f : α → β) : Flow α → Flow β
  | .skip => .skip
  | .leaf a => .leaf (f a)
  | .stop a => .stop (f a)
  | .leave => .leave
  | .next => .next
  | .seq first second => .seq (first.map f) (second.map f)
  | .branch c thenBranch elseBranch => .branch (f c) (thenBranch.map f) (elseBranch.map f)
  | .loop test testFirst body terminal =>
    .loop (test.map f) testFirst (body.map f) (terminal.map f)
  | .switch s wide body => .switch (f s) wide (body.map f)

def Cases.map (f : α → β) : Cases α → Cases β
  | .nil => .nil
  | .label l rest => .label l (rest.map f)
  | .step s rest => .step (s.map f) (rest.map f)

end

end Map

/-! ## Execution -/

/-- What happens while a statement is executed. -/
inductive Event (α : Type)
  | did (statement : α)
  /-- A condition or a selector has been evaluated. -/
  | asked (condition : α)
  /-- The statement has ended the function or the invocation. -/
  | stopped (statement : α)

namespace Event

variable {α β : Type}

/-- The leaf that the event is about. -/
def leaf : Event α → α
  | did a | asked a | stopped a => a

def map (f : α → β) : Event α → Event β
  | did a => did (f a)
  | asked a => asked (f a)
  | stopped a => stopped (f a)

end Event

/-- How a statement is left. -/
inductive Exit
  | normal | leave | next | ended
  /-- Not at all, but there was no more fuel. -/
  | cut
  deriving DecidableEq

/-- What has happened up to a point of the execution, and how many decisions had been made then. -/
structure Course (α : Type) where
  events : List (Event α)
  used : Nat
  exit : Exit

namespace Course

variable {α β : Type}

def done (used : Nat) : Course α := ⟨[], used, .normal⟩

/-- The course with events in front of it. -/
def after (before : List (Event α)) (c : Course α) : Course α :=
  { c with events := before ++ c.events }

/-- Goes on if the end has been reached. -/
def andThen (c : Course α) (follow : Nat → Course α) : Course α :=
  if c.exit = .normal then (follow c.used).after c.events else c

/-- What follows the body of a loop. -/
def around (c : Course α) (again : Nat → Course α) : Course α :=
  match c.exit with
  | .normal | .next => (again c.used).after c.events
  | .leave => { c with exit := .normal }
  | .ended | .cut => c

/-- A switch ends where its body is left. -/
def caught (c : Course α) : Course α := if c.exit = .leave then { c with exit := .normal } else c

def map (f : α → β) (c : Course α) : Course β :=
  ⟨c.events.map (Event.map f), c.used, c.exit⟩

end Course

section Run

variable {α : Type} (choose : Nat → Nat)

/-- The test of a loop. The loop is left if it does not hold. -/
def ask (used : Nat) : Option α → Course α
  | none => .done used
  | some a => ⟨[.asked a], used + 1, if choose used = 0 then .leave else .normal⟩

/-- The rounds of a loop, whose body and terminal part are given by what they do. Each round takes
one unit of fuel. -/
def rounds (test : Option α) (testFirst : Bool) (body terminal : Nat → Nat → Course α) :
    Nat → Nat → Course α
  | 0, used => ⟨[], used, .cut⟩
  | fuel + 1, used =>
    ((ask choose used (if testFirst then test else none)).andThen (body fuel)).around fun used =>
      (terminal fuel used).andThen fun used =>
        (ask choose used (if testFirst then none else test)).around
          (rounds test testFirst body terminal fuel)

/-- Whether a label of a switch is for the value of the selector. -/
def Jump.isCaseOf (wide : Bool) (word : Nat) : Jump → Bool
  | .caseLabel value => caseLiteral wide value == if wide then .wide word else .literal word
  | _ => false

mutual

/-- Executes a statement. The decisions before the one with the number `used` have been made. -/
def Flow.run : Flow α → (fuel used : Nat) → Course α
  | .skip, _, used => .done used
  | .leaf a, _, used => ⟨[.did a], used, .normal⟩
  | .stop a, _, used => ⟨[.stopped a], used, .ended⟩
  | .leave, _, used => ⟨[], used, .leave⟩
  | .next, _, used => ⟨[], used, .next⟩
  | .seq first second, fuel, used => (first.run fuel used).andThen (second.run fuel)
  | .branch c thenBranch elseBranch, fuel, used =>
    (if choose used = 0 then elseBranch.run fuel (used + 1)
      else thenBranch.run fuel (used + 1)).after [.asked c]
  | .loop test testFirst body terminal, fuel, used =>
    rounds choose test testFirst body.run terminal.run fuel used
  | .switch s wide body, fuel, used =>
    (((body.first (Jump.isCaseOf wide (choose used)) fuel (used + 1)).or
      (body.last (· == .defaultLabel) fuel (used + 1))).getD (.done (used + 1))).caught.after
        [.asked s]
termination_by structural s => s

/-- Executes all statements of the body of a switch. -/
def Cases.through : Cases α → (fuel used : Nat) → Course α
  | .nil, _, used => .done used
  | .label _ rest, fuel, used => rest.through fuel used
  | .step s rest, fuel, used => (s.run fuel used).andThen (rest.through fuel)
termination_by structural body => body

/-- Executes the body of a switch from the first label on that satisfies the condition. -/
def Cases.first (hit : Jump → Bool) : Cases α → (fuel used : Nat) → Option (Course α)
  | .nil, _, _ => none
  | .label l rest, fuel, used =>
    if hit l then some (rest.through fuel used) else rest.first hit fuel used
  | .step _ rest, fuel, used => rest.first hit fuel used
termination_by structural body => body

/-- Executes the body of a switch from the last label on that satisfies the condition. -/
def Cases.last (hit : Jump → Bool) : Cases α → (fuel used : Nat) → Option (Course α)
  | .nil, _, _ => none
  | .label l rest, fuel, used =>
    (rest.last hit fuel used).or (if hit l then some (rest.through fuel used) else none)
  | .step _ rest, fuel, used => rest.last hit fuel used
termination_by structural body => body

end

end Run

/-! ## Other leaves -/

section Map

variable {α β : Type} {choose : Nat → Nat} (f : α → β)

namespace Course

@[simp] theorem map_after (before : List (Event α)) (c : Course α) :
    (c.after before).map f = (c.map f).after (before.map (Event.map f)) := by
  simp [map, after]

theorem map_andThen {c : Course α} {follow : Nat → Course α} {follow' : Nat → Course β}
    (h : ∀ used, (follow used).map f = follow' used) :
    (c.andThen follow).map f = (c.map f).andThen follow' := by
  unfold andThen
  by_cases ends : c.exit = .normal
  · simp [ends, map, after, ← h]
  · simp [ends, map]

theorem map_around {c : Course α} {again : Nat → Course α} {again' : Nat → Course β}
    (h : ∀ used, (again used).map f = again' used) :
    (c.around again).map f = (c.map f).around again' := by
  unfold around
  cases ends : c.exit <;> simp [ends, map, after, ← h]

theorem map_caught (c : Course α) : c.caught.map f = (c.map f).caught := by
  by_cases left : c.exit = .leave <;> simp [caught, map, left]

end Course

theorem map_ask (used : Nat) (test : Option α) :
    (ask choose used test).map f = ask choose used (test.map f) := by
  cases test <;> rfl

theorem map_rounds {test : Option α} {testFirst : Bool} {body terminal : Nat → Nat → Course α}
    {body' terminal' : Nat → Nat → Course β}
    (hb : ∀ fuel used, (body fuel used).map f = body' fuel used)
    (ht : ∀ fuel used, (terminal fuel used).map f = terminal' fuel used) (fuel used : Nat) :
    (rounds choose test testFirst body terminal fuel used).map f =
      rounds choose (test.map f) testFirst body' terminal' fuel used := by
  induction fuel generalizing used with
  | zero => rfl
  | succ fuel ih =>
    rw [rounds, rounds, Course.map_around f fun used => Course.map_andThen f fun used =>
      Course.map_around f ih, Course.map_andThen f (hb fuel), map_ask]
    simp only [map_ask, ht]
    cases testFirst <;> rfl

mutual

theorem Flow.map_run : (s : Flow α) → ∀ fuel used,
    (s.run choose fuel used).map f = (s.map f).run choose fuel used
  | .skip, _, _ | .leaf _, _, _ | .stop _, _, _ | .leave, _, _ | .next, _, _ => rfl
  | .seq first second, fuel, used => by
    rw [Flow.run, Course.map_andThen f (second.map_run fuel), first.map_run fuel used]
    rfl
  | .branch c thenBranch elseBranch, fuel, used => by
    rw [Flow.run, Course.map_after, Flow.map, Flow.run]
    split
    · rw [elseBranch.map_run]
      rfl
    · rw [thenBranch.map_run]
      rfl
  | .loop test testFirst body terminal, fuel, used =>
    map_rounds f body.map_run terminal.map_run fuel used
  | .switch s wide body, fuel, used => by
    rw [Flow.run, Course.map_after, Course.map_caught, Flow.map, Flow.run,
      ← body.map_first, ← body.map_last, ← Option.map_or]
    cases (body.first choose _ fuel _).or (body.last choose _ fuel _) <;> rfl

theorem Cases.map_through : (body : Cases α) → ∀ fuel used,
    (body.through choose fuel used).map f = (body.map f).through choose fuel used
  | .nil, _, _ => rfl
  | .label _ rest, fuel, used => rest.map_through fuel used
  | .step s rest, fuel, used => by
    rw [Cases.through, Course.map_andThen f (rest.map_through fuel), s.map_run fuel used]
    rfl

theorem Cases.map_first (hit : Jump → Bool) : (body : Cases α) → ∀ fuel used,
    (body.first choose hit fuel used).map (Course.map f) = (body.map f).first choose hit fuel used
  | .nil, _, _ => rfl
  | .label l rest, fuel, used => by
    rw [Cases.first, Cases.map, Cases.first, ← rest.map_first, ← rest.map_through]
    split <;> rfl
  | .step _ rest, fuel, used => rest.map_first hit fuel used

theorem Cases.map_last (hit : Jump → Bool) : (body : Cases α) → ∀ fuel used,
    (body.last choose hit fuel used).map (Course.map f) = (body.map f).last choose hit fuel used
  | .nil, _, _ => rfl
  | .label l rest, fuel, used => by
    rw [Cases.last, Option.map_or, Cases.map, Cases.last, ← rest.map_last, ← rest.map_through]
    split <;> rfl
  | .step _ rest, fuel, used => rest.map_last hit fuel used

end

end Map

/-! ## Leaves -/

section Leaves

variable {α β : Type}

mutual

/-- What holds of the events that the leaves stand for. -/
def Flow.All (P : Event α → Prop) : Flow α → Prop
  | .skip | .leave | .next => True
  | .leaf a => P (.did a)
  | .stop a => P (.stopped a)
  | .seq first second => first.All P ∧ second.All P
  | .branch c thenBranch elseBranch => P (.asked c) ∧ thenBranch.All P ∧ elseBranch.All P
  | .loop test _ body terminal => (∀ a ∈ test, P (.asked a)) ∧ body.All P ∧ terminal.All P
  | .switch s _ body => P (.asked s) ∧ body.All P

def Cases.All (P : Event α → Prop) : Cases α → Prop
  | .nil => True
  | .label _ rest => rest.All P
  | .step s rest => s.All P ∧ rest.All P

end

end Leaves

/-! ## Statements of a program -/

mutual

/-- The flow of a statement. What is not a construct of control flow is a leaf. -/
def Node.flow : Node → Flow Node
  | .sequence _ nodes => flowAll nodes
  | .select info condition thenBranch elseBranch both advice =>
    if info.type.isVoid then .branch condition (flowOption thenBranch) (flowOption elseBranch)
    else .leaf (.select info condition thenBranch elseBranch both advice)
  | .switch _ selector body _ =>
    .switch selector (selector.type.bitWidth == 64) (flowCases body).trim
  | .loop _ test body terminal testFirst _ =>
    .loop test testFirst (flowOption body) (flowOption terminal)
  | .jump info kind value =>
    match kind with
    | .leave => .leave
    | .next => .next
    | .ret | .kill | .terminateInvocation | .ignoreIntersection | .terminateRay =>
      .stop (.jump info kind value)
    | .demote | .caseLabel _ | .defaultLabel => .leaf (.jump info kind value)
  | n => .leaf n
termination_by structural n => n

/-- The flow of several statements, one after the other. -/
def Node.flowAll : List Node → Flow Node
  | [] => .skip
  | n :: rest => .seq n.flow (flowAll rest)
termination_by structural ns => ns

def Node.flowOption : Option Node → Flow Node
  | none => .skip
  | some n => n.flow
termination_by structural n => n

/-- The body of a switch, with its labels. -/
def Node.flowCases : List Node → Cases Node
  | [] => .nil
  | n :: rest =>
    match n.label? with
    | some l => .label l (flowCases rest)
    | none => .step n.flow (flowCases rest)
termination_by structural ns => ns

end

end ShaderGen
