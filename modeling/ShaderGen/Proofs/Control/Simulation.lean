import ShaderGen.Proofs.Control.Walk

/-!
# Walks follow executions

`Flow.Draws` relates a flow to the piece that has been written for it, where every leaf knows what a
walk through its code comes by. `Simulates` says that a walk through the piece goes through the
leaves in the order in which they are executed, and leaves the piece as the execution does. It holds
of every flow and its piece (`Flow.simulates`).
-/

namespace ShaderGen

open List Piece Draft

variable {live : Bool} {a : Chunk} {id start : Ident} {advice : List Operand} {l : LoopLabels}
  {control : Nat} {α : Type} {merge : Ident} {code : List Instruction} {testFirst : Bool}
  {target : Ident} {hit : Jump → Bool} {tail : List Instruction} {scopes : List JumpScope}
  {choose : Nat → Nat}

/-! ## Flows and their pieces -/

/-- A leaf of a flow with what a walk through its code comes by. -/
structure Chunk where
  node : Node
  steps : List Step

/-- The piece is straight code. -/
def Piece.Straight (piece : Piece) (code : List Instruction) : Prop :=
  (∀ d, piece.emit d = d.push code) ∧ ∀ i ∈ code, i.op.isFlow = false

/-- The piece evaluates a condition, whose value has the given id. -/
def Piece.Asks (piece : Piece) (id : Ident) (a : Chunk) : Prop :=
  ∃ code, piece.Straight code ∧ a.steps = code.map .did ++ [.asked id]

/-- The code of a group of a switch. -/
def CaseGroup.piece (g : CaseGroup Piece) : Piece := .all g.statements

mutual

/-- The piece is the code of the flow, inside of the given constructs. -/
def Flow.Draws : Flow Chunk → List JumpScope → Piece → Prop
  | .skip, _, piece => piece.Straight []
  | .leaf a, _, piece => ∃ code, piece.Straight code ∧ a.steps = code.map .did
  | .stop a, _, piece => ∃ code last follow,
    (∀ d, piece.emit d = d.move (code ++ [last]) follow false) ∧
      (∀ i ∈ code, i.op.isFlow = false) ∧ last.op.isFinal ∧
      a.steps = code.map .did ++ [.ended last]
  | .leave, scopes, piece => ∃ scope rest follow, scopes = scope :: rest ∧
    piece = .jump scope.merge follow
  | .next, scopes, piece => ∃ target follow,
    scopes.findSome? JumpScope.continueTarget? = some target ∧ piece = .jump target follow
  | .seq s t, scopes, piece => ∃ first second, s.Draws scopes first ∧ t.Draws scopes second ∧
    piece = .seq first second
  | .branch c s t, scopes, piece => ∃ test id control, test.Asks id c ∧
    ((∃ thenBlock merge body, s.Draws scopes body ∧ t = .skip ∧
        piece = .seq test (.ifThen id control thenBlock merge body)) ∨
      ∃ thenBlock elseBlock merge first second, s.Draws scopes first ∧ t.Draws scopes second ∧
        piece = .seq test (.ifElse id control thenBlock elseBlock merge false first second))
  | .loop test testFirst s t, scopes, piece => ∃ l advice body rest,
    s.Draws (.loop l.merge l.next :: scopes) body ∧ t.Draws scopes rest ∧
      match test, testFirst with
      | some a, true => ∃ block code id, code.Asks id a ∧
        piece = .whileLoop l advice block code id body rest
      | some a, false => ∃ code id, code.Asks id a ∧
        piece = .loop l advice body (.seq rest code) (some id)
      | none, _ => piece = .loop l advice body rest none
  | .switch a wide body, scopes, piece => ∃ test id control blocks merge groups, test.Asks id a ∧
    blocks.length = groups.length ∧ body.Starts (.switch merge :: scopes) groups ∧
    piece = .seq test (.switch id control (Codegen.switchTargets groups blocks merge wide) merge
      (.of blocks (groups.map CaseGroup.piece)))
termination_by structural s => s

/-- The rest of the body of a switch makes the given groups, when it is in the middle of one. -/
def Cases.Lays : Cases Chunk → List JumpScope → CaseGroup Piece → List (CaseGroup Piece) → Prop
  | .nil, _, g, groups => groups = [g]
  | .label l rest, scopes, g, groups =>
    if g.statements.isEmpty then rest.Lays scopes { g with labels := g.labels ++ [l] } groups
    else ∃ later, rest.Lays scopes { labels := [l] } later ∧ groups = g :: later
  | .step s rest, scopes, g, groups => ∃ piece, s.Draws scopes piece ∧
    rest.Lays scopes { g with statements := g.statements ++ [piece] } groups
termination_by structural body => body

/-- The body of a switch makes the given groups. -/
def Cases.Starts : Cases Chunk → List JumpScope → List (CaseGroup Piece) → Prop
  | .nil, _, groups => groups = []
  | .label l rest, scopes, groups => rest.Lays scopes { labels := [l] } groups
  | .step _ _, _, _ => False
termination_by structural body => body

end

/-! ## Following an execution -/

/-- What a walk comes by in the course of an execution. -/
def Course.steps (c : Course Chunk) : List Step := c.events.flatMap fun e => e.leaf.steps

@[simp] theorem Course.steps_after (before : List (Event Chunk)) (c : Course Chunk) :
    (c.after before).steps = (before.flatMap fun e => e.leaf.steps) ++ c.steps := by
  simp [steps, after]

theorem Course.andThen_done (c : Course Chunk) : c.andThen .done = c := by
  unfold andThen
  split
  · rename_i normal
    obtain ⟨events, used, exit⟩ := c
    obtain rfl := normal
    simp [done, after]
  · rfl

/-- Walking on from `code` does what the execution does. Where the execution goes on, the walk comes
to the code that `out` gives for the way in which the statement is left. -/
inductive Mirrors (blocks : List Block) (choose : Nat → Nat) (bound used : Nat)
    (code : List Instruction) (out : Exit → Option (List Instruction)) (c : Course Chunk) : Prop
  | comes (rest : List Instruction) (way : out c.exit = some rest) (n : Nat)
    (walks : ∀ m, walk blocks choose (n + m) used code =
      (walk blocks choose m c.used rest).after c.steps)
  | ends (exit : c.exit = .ended) (n : Nat)
    (walks : ∀ m, walk blocks choose (n + m) used code = ⟨c.steps, true⟩)
  /-- The execution has been cut off, and the walk has got at least as far. -/
  | pauses (exit : c.exit = .cut) (n : Nat) (le : bound ≤ n)
    (walks : walk blocks choose n used code = ⟨c.steps, false⟩)

/-- The ways on from a statement inside of the given constructs. -/
def ways (scopes : List JumpScope) (onward : Option (List Instruction)) :
    Exit → Option (List Instruction)
  | .normal => onward
  | .leave => scopes.head?.map fun scope => [.goto scope.merge]
  | .next => (scopes.findSome? JumpScope.continueTarget?).map fun target => [.goto target]
  | .ended | .cut => none

/-- The ways on from the test of a loop. -/
def testWays (yes no : Ident) : Exit → Option (List Instruction)
  | .normal => some [.goto yes]
  | .leave => some [.goto no]
  | .next | .ended | .cut => none

/-- Whatever way is open in the one is open in the other one, but for the given exit. -/
def Widens (skip : Exit → Prop) (out out' : Exit → Option (List Instruction)) : Prop :=
  ∀ e code, ¬ skip e → out e = some code → out' e = some code

theorem widens_ways {x y : Option (List Instruction)} :
    Widens (· = .normal) (ways scopes x) (ways scopes y) := by
  intro e code other way
  cases e with
  | normal => exact absurd rfl other
  | _ => exact way

variable {piece : Piece}

namespace Mirrors

variable {blocks : List Block} {choose : Nat → Nat} {bound bound' used used' : Nat}
  {code code' : List Instruction} {out out' : Exit → Option (List Instruction)} {c : Course Chunk}
  {label : Ident} {n : Nat}

theorem mono (h : Mirrors blocks choose bound used code out c)
    (widens : Widens (fun _ => False) out out') : Mirrors blocks choose bound used code out' c := by
  cases h with
  | comes rest way n walks => exact .comes rest (widens _ _ id way) n walks
  | ends exit n walks => exact .ends exit n walks
  | pauses exit n le walks => exact .pauses exit n le walks

theorem weaken (h : Mirrors blocks choose bound used code out c) (le : bound' ≤ bound) :
    Mirrors blocks choose bound' used code out c := by
  cases h with
  | comes rest way n walks => exact .comes rest way n walks
  | ends exit n walks => exact .ends exit n walks
  | pauses exit n more walks => exact .pauses exit n (Nat.le_trans le more) walks

theorem after (h : Mirrors blocks choose bound used' code' out c)
    {before : List (Event Chunk)} (walks : ∀ m, walk blocks choose (n + m) used code =
      (walk blocks choose m used' code').after (before.flatMap fun e => e.leaf.steps)) :
    Mirrors blocks choose (bound + n) used code out (c.after before) := by
  cases h with
  | comes rest way k later =>
    refine .comes rest way (n + k) fun m => ?_
    rw [Nat.add_assoc, walks, later, Trail.after_after, Course.steps_after]
    rfl
  | ends exit k later =>
    refine .ends exit (n + k) fun m => ?_
    rw [Nat.add_assoc, walks, later, Course.steps_after]
    rfl
  | pauses exit k le later =>
    refine .pauses exit (n + k) (by omega) ?_
    rw [walks, later, Course.steps_after]
    rfl

theorem moved (h : Mirrors blocks choose bound used' code' out c)
    (walks : ∀ m, walk blocks choose (n + m) used code = walk blocks choose m used' code') :
    Mirrors blocks choose (bound + n) used code out c := by
  have walks' : ∀ m, walk blocks choose (n + m) used code =
      (walk blocks choose m used' code').after
        (([] : List (Event Chunk)).flatMap fun e => e.leaf.steps) := walks
  exact h.after walks'

theorem andThen {follow : Nat → Course Chunk} (h : Mirrors blocks choose bound used code out c)
    (onward : ∀ rest, out .normal = some rest →
      Mirrors blocks choose bound c.used rest out' (follow c.used))
    (widens : Widens (· = .normal) out out') :
    Mirrors blocks choose bound used code out' (c.andThen follow) := by
  by_cases normal : c.exit = .normal
  · rw [Course.andThen, if_pos normal]
    cases h with
    | comes rest way n walks =>
      exact ((onward rest (normal ▸ way)).after walks).weaken (Nat.le_add_right _ _)
    | ends exit n walks | pauses exit n le walks => simp [normal] at exit
  · rw [Course.andThen, if_neg normal]
    cases h with
    | comes rest way n walks => exact .comes rest (widens _ _ normal way) n walks
    | ends exit n walks => exact .ends exit n walks
    | pauses exit n le walks => exact .pauses exit n le walks

theorem around {again : Nat → Course Chunk} (h : Mirrors blocks choose bound used code out c)
    (onward : ∀ rest, out .normal = some rest ∨ out .next = some rest →
      Mirrors blocks choose bound c.used rest out' (again c.used))
    (left : ∀ rest, out .leave = some rest → out' .normal = some rest)
    (shut : out .ended = none ∧ out .cut = none) :
    Mirrors blocks choose bound used code out' (c.around again) := by
  cases h with
  | comes rest way n walks =>
    cases exit : c.exit with
    | normal =>
      rw [exit] at way
      simp only [Course.around, exit]
      exact ((onward rest (.inl way)).after walks).weaken (Nat.le_add_right _ _)
    | next =>
      rw [exit] at way
      simp only [Course.around, exit]
      exact ((onward rest (.inr way)).after walks).weaken (Nat.le_add_right _ _)
    | leave =>
      rw [exit] at way
      simp only [Course.around, exit]
      exact .comes rest (left rest way) n walks
    | ended => simp [exit, shut] at way
    | cut => simp [exit, shut] at way
  | ends exit n walks =>
    simp only [Course.around, exit]
    exact .ends exit n walks
  | pauses exit n le walks =>
    simp only [Course.around, exit]
    exact .pauses exit n le walks

/-- A switch is left where its body is. -/
theorem caught (h : Mirrors blocks choose bound used code out c)
    (left : ∀ rest, out .leave = some rest → out' .normal = some rest)
    (widens : Widens (· = .leave) out out') :
    Mirrors blocks choose bound used code out' c.caught := by
  cases h with
  | comes rest way n walks =>
    by_cases exit : c.exit = .leave
    · rw [Course.caught, if_pos exit]
      exact .comes rest (left rest (exit ▸ way)) n walks
    · rw [Course.caught, if_neg exit]
      exact .comes rest (widens _ _ exit way) n walks
  | ends exit n walks =>
    rw [Course.caught, if_neg (by simp [exit])]
    exact .ends exit n walks
  | pauses exit n le walks =>
    rw [Course.caught, if_neg (by simp [exit])]
    exact .pauses exit n le walks

/-- The walk is where it has to go. -/
theorem here (way : out .normal = some code) :
    Mirrors blocks choose bound used code out (.done used) :=
  .comes code way 0 fun m => by rw [Nat.zero_add]; rfl

theorem goto (h : Mirrors blocks choose bound used code out c)
    (block : codeAt blocks label = code) :
    Mirrors blocks choose bound used [.goto label] out c := by
  refine (h.moved (n := 1) fun m => ?_).weaken (Nat.le_succ _)
  rw [Nat.add_comm, walk_goto, block]

theorem thenGoto (h : Mirrors blocks choose bound used code out c)
    (normal : ∀ rest, out .normal = some rest → rest = [.goto label])
    (block : codeAt blocks label = code') (way : out' .normal = some code')
    (widens : Widens (· = .normal) out out') : Mirrors blocks choose bound used code out' c := by
  rw [← c.andThen_done]
  refine h.andThen (fun rest hrest => ?_) widens
  rw [normal rest hrest]
  exact (here way).goto block

theorem noTest (yes no : Ident) :
    Mirrors blocks choose bound used [.goto yes] (testWays yes no) (ask choose used none) :=
  here rfl

/-- A condition decides where to go. -/
theorem test {straight : List Instruction} (h : piece.Straight straight)
    (steps : a.steps = straight.map .did ++ [.asked id]) (yes no : Ident) :
    Mirrors blocks choose bound used (straight ++ [.fork id yes no]) (testWays yes no)
      (ask choose used (some a)) := by
  refine .comes [.goto (if choose used = 0 then no else yes)] ?_ 0 fun m => ?_
  · by_cases zero : choose used = 0 <;> simp [ask, testWays, zero]
  · rw [Nat.zero_add, walk_straight h.2, walk_fork, Trail.after_after, ← steps]
    simp [ask, Course.steps, Event.leaf]

theorem rounds {test : Option Chunk} {body terminal : Nat → Nat → Course Chunk}
    (enter : ∀ used m, walk blocks choose (1 + m) used [.goto l.header] =
      walk blocks choose m used [.goto start])
    (hfirst : ∀ fuel used, Mirrors blocks choose fuel used [.goto start]
      (testWays l.body l.merge) (ask choose used (if testFirst then test else none)))
    (hbody : ∀ fuel used, Mirrors blocks choose fuel used [.goto l.body]
      (ways (.loop l.merge l.next :: scopes) (some [.goto l.next])) (body fuel used))
    (hterminal : ∀ fuel used, Mirrors blocks choose fuel used [.goto l.next]
      (ways scopes (some tail)) (terminal fuel used))
    (hlast : ∀ fuel used, Mirrors blocks choose fuel used tail (testWays l.header l.merge)
      (ask choose used (if testFirst then none else test))) (fuel used : Nat) :
    Mirrors blocks choose fuel used [.goto l.header] (ways scopes (some [.goto l.merge]))
      (ShaderGen.rounds choose test testFirst body terminal fuel used) := by
  induction fuel generalizing used with
  | zero => exact .pauses rfl 0 (Nat.le_refl _) rfl
  | succ fuel ih =>
    have inside : Mirrors blocks choose fuel used [.goto start]
        (ways (.loop l.merge l.next :: scopes) (some [.goto l.next]))
        ((ask choose used (if testFirst then test else none)).andThen (body fuel)) := by
      refine (hfirst fuel used).andThen (fun rest way => ?_) fun e code other way => ?_
      · obtain rfl := Option.some.inj way
        exact hbody fuel _
      · cases e <;> simp_all [testWays, ways, JumpScope.merge]
    have round : Mirrors blocks choose fuel used [.goto start] (ways scopes (some [.goto l.merge]))
        (((ask choose used (if testFirst then test else none)).andThen (body fuel)).around
        fun used =>
          (terminal fuel used).andThen fun used =>
            (ask choose used (if testFirst then none else test)).around
              (ShaderGen.rounds choose test testFirst body terminal fuel)) := by
      refine inside.around (fun rest way => ?_) (fun rest way => ?_) ⟨rfl, rfl⟩
      · obtain rfl : [.goto l.next] = rest := by
          rcases way with way | way <;> exact Option.some.inj way
        refine (hterminal fuel _).andThen (fun rest way => ?_) widens_ways
        obtain rfl := Option.some.inj way
        refine (hlast fuel _).around (fun rest way => ?_) (fun rest way => way) ⟨rfl, rfl⟩
        obtain rfl : [.goto l.header] = rest := by simpa [testWays] using way
        exact ih _
      · simpa [ways, JumpScope.merge] using way
    -- a round takes a step at least, the one to the header
    exact round.moved (enter used)

end Mirrors

/-! ## Constructs -/

/-- A walk through the blocks of the piece mirrors the execution of what it is the code of. -/
def Simulates (blocks : List Block) (choose : Nat → Nat) (run : Nat → Nat → Course Chunk)
    (scopes : List JumpScope) (piece : Piece) : Prop :=
  ∀ d code code', d.live = true → d.Within blocks code → (piece.emit d).Within blocks code' →
    ∀ fuel used, Mirrors blocks choose fuel used code
      (ways scopes (if (piece.emit d).live then some code' else none)) (run fuel used)

theorem exists_way {rest : List Instruction}
    (h : (if live then some code else none) = some rest) : live = true ∧ code = rest := by
  cases live with
  | true => exact ⟨rfl, Option.some.inj h⟩
  | false => cases h

theorem eq_goto_of_onward {rest : List Instruction}
    (h : (if live then some (onward live target) else none) = some rest) :
    rest = [.goto target] := by
  obtain ⟨rfl, rfl⟩ := exists_way h
  rfl

variable {test : Piece}

namespace Simulates

variable {blocks : List Block} {choose : Nat → Nat} {scopes : List JumpScope}
  {s t : Nat → Nat → Course Chunk} {c : Chunk} {follow thenBlock : Ident}
  {code' inner : List Instruction} {body rest : Piece} {w : Written}

theorem straight {events : List (Event Chunk)}
    (h : piece.Straight code) (steps : (events.flatMap fun e => e.leaf.steps) = code.map .did) :
    Simulates blocks choose (fun _ used => ⟨events, used, .normal⟩) scopes piece := by
  intro d _ code' live here there fuel used
  rw [h.1] at there ⊢
  obtain rfl := here.unique (within_push.1 there)
  refine .comes code' (by simp [ways, push, live]) 0 fun m => ?_
  rw [Nat.zero_add, walk_straight h.2, Course.steps, steps]

theorem stop {last : Instruction} (h : ∀ d, piece.emit d = d.move (code ++ [last]) follow false)
    (plain : ∀ i ∈ code, i.op.isFlow = false) (final : last.op.isFinal)
    (steps : a.steps = code.map .did ++ [.ended last]) :
    Simulates blocks choose (fun _ used => ⟨[.stopped a], used, .ended⟩) scopes piece := by
  intro d _ code' live here there fuel used
  rw [h] at there
  obtain rfl := here.unique (within_move.1 there).1
  refine .ends rfl 0 fun m => ?_
  rw [Nat.zero_add, walk_straight plain, walk_final final]
  simp [Trail.after, Course.steps, Event.leaf, steps]

theorem jump {exit : Exit} (way : ∀ onward, ways scopes onward exit = some [.goto target]) :
    Simulates blocks choose (fun _ used => ⟨[], used, exit⟩) scopes (.jump target follow) := by
  intro d _ code' live here there fuel used
  rw [emit, live] at there
  obtain rfl := here.unique (within_move.1 there).1
  refine .comes [.goto target] (way _) 0 fun m => ?_
  rw [Nat.zero_add]
  rfl

theorem seq {first second : Piece} (hs : Simulates blocks choose s scopes first)
    (ht : Simulates blocks choose t scopes second) :
    Simulates blocks choose (fun fuel used => (s fuel used).andThen (t fuel)) scopes
      (.seq first second) := by
  intro d code code' live here there fuel used
  obtain ⟨mid, between⟩ := second.within_of_emit there
  refine (hs d code mid live here between fuel used).andThen (fun rest way => ?_) widens_ways
  obtain ⟨live', rfl⟩ := exists_way way
  exact ht _ _ _ live' between there fuel _

theorem walk_selects (h : test.Straight code)
    (steps : c.steps = code.map .did ++ [.asked id]) (merge yes no : Ident) (control m used : Nat) :
    walk blocks choose (0 + m) used (code ++ [.selecting merge control, .fork id yes no]) =
      (walk blocks choose m (used + 1) [.goto (if choose used = 0 then no else yes)]).after
        ([Event.asked c].flatMap fun e => e.leaf.steps) := by
  rw [Nat.zero_add, walk_straight h.2, walk_merge rfl, walk_fork, Trail.after_after]
  simp [Event.leaf, steps]

/-- A side of a selection, from the block where it starts to the one where the selection ends. -/
theorem side {label : Ident}
    (hs : Simulates blocks choose s scopes body) (start : (w.begin label true).Within blocks inner)
    (ends : (body.emit (w.begin label true)).Within blocks
      (onward (body.emit (w.begin label true)).live merge)) (target : codeAt blocks merge = code')
    (reached : (body.emit (w.begin label true)).live = true → live = true) (fuel used : Nat) :
    Mirrors blocks choose fuel used [.goto label] (ways scopes (if live then some code' else none))
      (s fuel used) := by
  have inside := hs _ _ _ rfl start ends fuel used
  have whole : Mirrors blocks choose fuel used inner
      (ways scopes (if live then some code' else none)) (s fuel used) := by
    rw [← Course.andThen_done (s fuel used)]
    refine inside.andThen (fun rest way => ?_) widens_ways
    rw [eq_goto_of_onward way]
    refine (Mirrors.here ?_).goto target
    simp [ways, reached (exists_way way).1]
  exact whole.goto (Written.within_begin.1 start).2

theorem ifThen (asks : test.Asks id c)
    (hs : Simulates blocks choose s scopes body) : Simulates blocks choose
      (fun fuel used => (if choose used = 0 then .done (used + 1) else s fuel (used + 1)).after
        [.asked c]) scopes (.seq test (.ifThen id control thenBlock merge body)) := by
  obtain ⟨straight, hstraight, steps⟩ := asks
  intro d _ code' live here there fuel used
  have live' : (d.push straight).live = true := live
  rw [emit, hstraight.1, emit, live'] at there ⊢
  obtain ⟨ends, target⟩ := within_move.1 there
  obtain ⟨inner, start⟩ := body.within_of_emit ends
  obtain ⟨front, -⟩ := within_move.1 start
  obtain rfl := here.unique (within_push.1 front)
  refine Mirrors.after (n := 0) ?_
    fun m => walk_selects hstraight steps merge thenBlock merge control m used
  by_cases zero : choose used = 0
  · rw [if_pos zero, if_pos zero]
    exact (Mirrors.here rfl).goto target
  · rw [if_neg zero, if_neg zero]
    exact side hs start ends target (fun _ => rfl) fuel (used + 1)

theorem ifElse {first second : Piece} {elseBlock : Ident}
    (asks : test.Asks id c) (hs : Simulates blocks choose s scopes first)
    (ht : Simulates blocks choose t scopes second) : Simulates blocks choose
      (fun fuel used => (if choose used = 0 then t fuel (used + 1) else s fuel (used + 1)).after
        [.asked c]) scopes
      (.seq test (.ifElse id control thenBlock elseBlock merge false first second)) := by
  obtain ⟨straight, hstraight, steps⟩ := asks
  intro d _ code' live here there fuel used
  have live' : (d.push straight).live = true := live
  rw [emit, hstraight.1, emit, live'] at there ⊢
  obtain ⟨ends', target⟩ := within_move.1 there
  obtain ⟨inner', start'⟩ := second.within_of_emit ends'
  obtain ⟨ends, -⟩ := within_move.1 start'
  obtain ⟨inner, start⟩ := first.within_of_emit ends
  obtain ⟨front, -⟩ := within_move.1 start
  obtain rfl := here.unique (within_push.1 front)
  refine Mirrors.after (n := 0) ?_
    fun m => walk_selects hstraight steps merge thenBlock elseBlock control m used
  by_cases zero : choose used = 0
  · rw [if_pos zero, if_pos zero]
    refine side ht start' ends' target (fun reached => ?_) fuel (used + 1)
    simp [move, Written.begin] at reached ⊢
    exact .inr reached
  · rw [if_neg zero, if_neg zero]
    refine side hs start ends target (fun reached => ?_) fuel (used + 1)
    simp [move, Written.begin] at reached ⊢
    exact .inl reached

/-! ### Loops -/

/-- From its header on, a loop does what its rounds do. Its test, which comes first or last, is
given by the code in front of the body and that behind the terminal part. -/
theorem rounds {inner' : List Instruction} {test : Option Chunk}
    (hs : Simulates blocks choose s (.loop l.merge l.next :: scopes) body)
    (ht : Simulates blocks choose t scopes rest)
    (enter : ∀ used m, walk blocks choose (1 + m) used [.goto l.header] =
      walk blocks choose m used [.goto start])
    (hfirst : ∀ fuel used, Mirrors blocks choose fuel used [.goto start]
      (testWays l.body l.merge) (ask choose used (if testFirst then test else none)))
    (begins : (w.begin l.body true).Within blocks inner)
    (ends : (body.emit (w.begin l.body true)).Within blocks
      (onward (body.emit (w.begin l.body true)).live l.next))
    (begins' : ((body.emit (w.begin l.body true)).move
      (onward (body.emit (w.begin l.body true)).live l.next) l.next true).Within blocks inner')
    (ends' : (rest.emit ((body.emit (w.begin l.body true)).move
      (onward (body.emit (w.begin l.body true)).live l.next) l.next true)).Within blocks tail)
    (hlast : ∀ fuel used, Mirrors blocks choose fuel used tail (testWays l.header l.merge)
      (ask choose used (if testFirst then none else test))) (target : codeAt blocks l.merge = code')
    (fuel used : Nat) : Mirrors blocks choose fuel used [.goto l.header] (ways scopes (some code'))
      (ShaderGen.rounds choose test testFirst s t fuel used) := by
  have hbody : ∀ fuel used, Mirrors blocks choose fuel used [.goto l.body]
      (ways (.loop l.merge l.next :: scopes) (some [.goto l.next])) (s fuel used) := by
    intro fuel used
    refine ((hs _ _ _ rfl begins ends fuel used).goto (Written.within_begin.1 begins).2).mono
      fun e code _ way => ?_
    cases e with
    | normal => exact congrArg some (eq_goto_of_onward way).symm
    | _ => exact way
  have hterminal : ∀ fuel used, Mirrors blocks choose fuel used [.goto l.next]
      (ways scopes (some tail)) (t fuel used) := by
    intro fuel used
    refine ((ht _ _ _ rfl begins' ends' fuel used).goto (within_move.1 begins').2).mono
      fun e code _ way => ?_
    cases e with
    | normal => exact congrArg some (exists_way way).2
    | _ => exact way
  refine (Mirrors.rounds enter hfirst hbody hterminal hlast fuel used).thenGoto
    (fun rest way => (Option.some.inj way).symm) target rfl widens_ways

theorem walk_header
    (header : codeAt blocks l.header = [.looping l.merge l.next advice, .goto start])
    (used m : Nat) :
    walk blocks choose (1 + m) used [.goto l.header] = walk blocks choose m used [.goto start] := by
  rw [Nat.add_comm, walk_goto, header, walk_merge rfl]

theorem loop (testFirst : Bool)
    (hs : Simulates blocks choose s (.loop l.merge l.next :: scopes) body)
    (ht : Simulates blocks choose t scopes rest) :
    Simulates blocks choose (ShaderGen.rounds choose none testFirst s t) scopes
      (.loop l advice body rest none) := by
  intro d _ code' live here there fuel used
  rw [emit, live] at there ⊢
  obtain ⟨ends', target⟩ := within_move.1 there
  obtain ⟨inner', begins'⟩ := rest.within_of_emit ends'
  obtain ⟨ends, -⟩ := within_move.1 begins'
  obtain ⟨inner, begins⟩ := body.within_of_emit ends
  obtain ⟨front, header⟩ := within_move.1 (within_move.1 begins).1
  obtain rfl := here.unique front
  refine rounds hs ht (walk_header header) (fun fuel used => ?_) begins ends begins' ends'
    (fun fuel used => ?_) target fuel used
  · cases testFirst <;> exact Mirrors.noTest _ _
  · cases testFirst <;> exact Mirrors.noTest _ _

theorem loopTestLast (asks : test.Asks id a)
    (hs : Simulates blocks choose s (.loop l.merge l.next :: scopes) body)
    (ht : Simulates blocks choose t scopes rest) :
    Simulates blocks choose (ShaderGen.rounds choose (some a) false s t) scopes
      (.loop l advice body (.seq rest test) (some id)) := by
  obtain ⟨straight, hstraight, steps⟩ := asks
  intro d _ code' live here there fuel used
  rw [emit, live, emit, hstraight.1] at there ⊢
  obtain ⟨tested, target⟩ := within_move.1 there
  have ends' := within_push.1 tested
  obtain ⟨inner', begins'⟩ := rest.within_of_emit ends'
  obtain ⟨ends, -⟩ := within_move.1 begins'
  obtain ⟨inner, begins⟩ := body.within_of_emit ends
  obtain ⟨front, header⟩ := within_move.1 (within_move.1 begins).1
  obtain rfl := here.unique front
  exact rounds hs ht (walk_header header) (fun fuel used => Mirrors.noTest _ _) begins
    ends begins' ends' (fun fuel used => Mirrors.test hstraight steps l.header l.merge) target fuel
    used

theorem whileLoop {block : Ident} (asks : test.Asks id a)
    (hs : Simulates blocks choose s (.loop l.merge l.next :: scopes) body)
    (ht : Simulates blocks choose t scopes rest) :
    Simulates blocks choose (ShaderGen.rounds choose (some a) true s t) scopes
      (.whileLoop l advice block test id body rest) := by
  obtain ⟨straight, hstraight, steps⟩ := asks
  intro d _ code' live here there fuel used
  rw [emit, live, hstraight.1] at there ⊢
  obtain ⟨ends', target⟩ := within_move.1 there
  obtain ⟨inner', begins'⟩ := rest.within_of_emit ends'
  obtain ⟨ends, -⟩ := within_move.1 begins'
  obtain ⟨inner, begins⟩ := body.within_of_emit ends
  obtain ⟨tests, testBlock⟩ :=
    within_move.1 (within_push.1 (within_move.1 begins).1)
  obtain ⟨front, header⟩ := within_move.1 tests
  obtain rfl := here.unique front
  refine rounds hs ht (walk_header header) (fun fuel used => ?_) begins ends begins' ends'
    (fun fuel used => Mirrors.noTest _ _) target fuel used
  exact (Mirrors.test hstraight steps l.body l.merge).goto testBlock

end Simulates

/-! ## Switches -/

/-- The labels of the body of a switch, each with what comes after it. -/
def Cases.entries {α : Type} : Cases α → List (Jump × Cases α)
  | .nil => []
  | .label l rest => (l, rest) :: rest.entries
  | .step _ rest => rest.entries

theorem Cases.first_eq (fuel used : Nat) : (body : Cases α) → body.first choose hit fuel used =
      (body.entries.find? fun e => hit e.1).map fun e => e.2.through choose fuel used
  | .nil => rfl
  | .label l rest => by
    rw [first, entries, find?_cons]
    by_cases h : hit l
    · simp [h]
    · simpa [h] using first_eq fuel used rest
  | .step _ rest => first_eq fuel used rest

theorem Cases.last_eq (fuel used : Nat) : (body : Cases α) → body.last choose hit fuel used =
      (body.entries.reverse.find? fun e => hit e.1).map fun e => e.2.through choose fuel used
  | .nil => rfl
  | .label l rest => by
    rw [last, last_eq fuel used rest, entries, reverse_cons, find?_append,
      Option.map_or, find?_singleton]
    by_cases h : hit l <;> simp [h]
  | .step _ rest => last_eq fuel used rest

/-- The labels of the groups of a switch, each with the block that it leads to. -/
def landings {α : Type} (entries : List (CaseGroup α × Ident)) : List (Jump × Ident) :=
  entries.flatMap fun e => e.1.labels.map fun l => (l, e.2)

section Landings

variable {α : Type}

theorem landings_cons (e : CaseGroup α × Ident) (entries : List (CaseGroup α × Ident)) :
    landings (e :: entries) = (e.1.labels.map fun l => (l, e.2)) ++ landings entries := rfl

theorem caseTarget_targets (wide : Bool) (word : Nat) (g : CaseGroup α) (block : Ident)
    (rest : List Operand) : caseTarget word (g.targets block wide ++ rest) =
      (((g.labels.map fun l => (l, block)).find? fun e => e.1.isCaseOf wide word).map
        Prod.snd).or (caseTarget word rest) := by
  obtain ⟨labels, statements⟩ := g
  induction labels with
  | nil => rfl
  | cons l labels ih =>
    cases l with
    | caseLabel value =>
      have same : (caseLiteral wide value = .literal word ∨ caseLiteral wide value = .wide word) ↔
          (Jump.caseLabel value).isCaseOf wide word = true := by
        cases wide <;> simp [caseLiteral, Jump.isCaseOf]
      change caseTarget word (caseLiteral wide value :: .ref block ::
        (CaseGroup.targets ⟨labels, statements⟩ block wide ++ rest)) = _
      rw [caseTarget, ih, map_cons, find?_cons]
      by_cases h : (Jump.caseLabel value).isCaseOf wide word = true <;> simp [same, h]
    | _ => exact ih

theorem caseTarget_eq (wide : Bool) (word : Nat) (entries : List (CaseGroup α × Ident)) :
    caseTarget word (entries.flatMap fun e => e.1.targets e.2 wide) =
      ((landings entries).find? fun e => e.1.isCaseOf wide word).map Prod.snd := by
  induction entries with
  | nil => rfl
  | cons e entries ih =>
    rw [flatMap_cons, caseTarget_targets, ih, landings_cons, find?_append, Option.map_or]

theorem find?_reverse_default (labels : List Jump) (block : Ident) :
    ((labels.map fun l => (l, block)).reverse.find? fun e => e.1 == .defaultLabel).map Prod.snd =
      if .defaultLabel ∈ labels then some block else none := by
  induction labels with
  | nil => rfl
  | cons l labels ih =>
    rw [map_cons, reverse_cons, find?_append, Option.map_or, ih, find?_singleton]
    by_cases h : .defaultLabel ∈ labels
    · simp [h]
    · by_cases same : l = .defaultLabel
      · simp [h, same]
      · simp [h, same, Ne.symm same]

theorem defaultTarget_eq (entries : List (CaseGroup α × Ident)) :
    ((entries.filter fun e => e.1.isDefault).getLast?).map Prod.snd =
      ((landings entries).reverse.find? fun e => e.1 == .defaultLabel).map Prod.snd := by
  rw [← head?_reverse, ← filter_reverse, head?_filter]
  induction entries with
  | nil => rfl
  | cons e entries ih =>
    rw [reverse_cons, find?_append, Option.map_or, ih, landings_cons,
      reverse_append, find?_append, Option.map_or, find?_reverse_default, find?_singleton]
    by_cases h : .defaultLabel ∈ e.1.labels <;> simp [CaseGroup.isDefault, h]

end Landings

theorem Draft.push_nil (d : Draft) : d.push [] = d := by
  simp [push]

theorem Piece.emit_all_append (first second : List Piece) (d : Draft) :
    (Piece.all (first ++ second)).emit d = (Piece.all second).emit ((Piece.all first).emit d) := by
  induction first generalizing d with
  | nil => rw [Piece.all, emit, push_nil, nil_append]
  | cons piece first ih => exact ih (piece.emit d)

theorem Cases.Lays.exists_head : (body : Cases Chunk) → ∀ {scopes : List JumpScope}
    {g : CaseGroup Piece} {groups : List (CaseGroup Piece)}, body.Lays scopes g groups →
    ∃ labels more later, groups = ⟨g.labels ++ labels, g.statements ++ more⟩ :: later
  | .nil, _, g, _, h => by
    obtain rfl := h
    exact ⟨[], [], [], by simp⟩
  | .label l rest, scopes, g, groups, h => by
    rw [Cases.Lays] at h
    split at h
    · obtain ⟨labels, more, later, rfl⟩ := exists_head rest h
      exact ⟨l :: labels, more, later, by simp⟩
    · obtain ⟨later, -, rfl⟩ := h
      exact ⟨[], [], later, by simp⟩
  | .step _ rest, _, g, _, h => by
    obtain ⟨piece, -, h⟩ := h
    obtain ⟨labels, more, later, rfl⟩ := exists_head rest h
    exact ⟨labels, piece :: more, later, by simp⟩

/-- The code of a switch in the middle of a group: `g` is what there is of the group so far, `block`
is its block, and `body` is the rest of the body. -/
structure Midway (blocks : List Block) (scopes : List JumpScope) (merge : Ident)
    (body : Cases Chunk) (g : CaseGroup Piece) (groups : List (CaseGroup Piece)) (w : Written)
    (block : Ident) (later : List Ident) : Prop where
  lays : body.Lays scopes g groups
  length : groups.length = later.length + 1
  within : ((Arms.of (block :: later) (groups.map CaseGroup.piece)).emit merge true w).Within blocks

/-- The code of the group so far. -/
def CaseGroup.draft (g : CaseGroup Piece) (w : Written) (block : Ident) : Draft :=
  g.piece.emit (w.begin block true)

namespace Midway

variable {blocks : List Block} {scopes : List JumpScope} {merge block : Ident}
  {body rest : Cases Chunk}
  {g : CaseGroup Piece} {groups : List (CaseGroup Piece)} {w : Written} {later : List Ident}

theorem exists_within (h : Midway blocks scopes merge body g groups w block later) :
    ∃ code, (g.draft w block).Within blocks code := by
  obtain ⟨labels, more, rest, rfl⟩ := h.lays.exists_head
  have closed := within_close.1 (Arms.within_of_emit _ h.within)
  rw [CaseGroup.piece, emit_all_append] at closed
  exact (Piece.all more).within_of_emit closed

theorem last (h : Midway blocks scopes merge .nil g groups w block later) :
    (g.draft w block).Within blocks (onward (g.draft w block).live merge) := by
  obtain rfl := h.lays
  obtain rfl := eq_nil_of_length_eq_zero (Nat.succ.inj h.length).symm
  exact within_close.1 h.within

theorem label {l : Jump} (h : Midway blocks scopes merge (.label l rest) g groups w block later)
    (empty : g.statements.isEmpty) :
    Midway blocks scopes merge rest { g with labels := g.labels ++ [l] } groups w block later := by
  refine ⟨?_, h.length, h.within⟩
  have lays := h.lays
  rwa [Cases.Lays, if_pos empty] at lays

/-- A label behind statements begins another group, which the one before it leads to. -/
theorem next {l : Jump} (h : Midway blocks scopes merge (.label l rest) g groups w block later)
    (nonempty : ¬ g.statements.isEmpty) : ∃ groups' block' later', groups = g :: groups' ∧
      later = block' :: later' ∧
      (g.draft w block).Within blocks (onward (g.draft w block).live block') ∧
      Midway blocks scopes merge rest { labels := [l] } groups'
        ((g.draft w block).close (onward (g.draft w block).live block')) block' later' := by
  have lays := h.lays
  rw [Cases.Lays, if_neg nonempty] at lays
  obtain ⟨groups', lays, rfl⟩ := lays
  obtain ⟨labels, more, others, rfl⟩ := lays.exists_head
  cases later with
  | nil => simpa using h.length
  | cons block' later' =>
    refine ⟨_, block', later', rfl, rfl, ?_, lays, Nat.succ.inj h.length, h.within⟩
    exact within_close.1 (Arms.within_of_emit _ h.within)

theorem step {s : Flow Chunk}
    (h : Midway blocks scopes merge (.step s rest) g groups w block later) :
    ∃ piece, s.Draws scopes piece ∧
      Midway blocks scopes merge rest { g with statements := g.statements ++ [piece] }
      groups w block
        later := by
  obtain ⟨piece, draws, lays⟩ := h.lays
  exact ⟨piece, draws, lays, h.length, h.within⟩

theorem draft_append (g : CaseGroup Piece) (piece : Piece) (w : Written) (block : Ident) :
    CaseGroup.draft { g with statements := g.statements ++ [piece] } w block =
      piece.emit (g.draft w block) := by
  rw [CaseGroup.draft, CaseGroup.piece, emit_all_append]
  exact push_nil _

end Midway

/-- Executing the body of a switch from a label on is mirrored from the block that the label leads
to. -/
def Lands (blocks : List Block) (choose : Nat → Nat) (scopes : List JumpScope) (merge : Ident)
    (e : Jump × Cases Chunk) (x : Jump × Ident) : Prop :=
  e.1 = x.1 ∧ ∀ fuel used, Mirrors blocks choose fuel used [.goto x.2]
    (ways scopes (some [.goto merge])) (e.2.through choose fuel used)

theorem exists_find?_of_forall2 {β : Type} {R : α → β → Prop} {xs : List α} {ys : List β}
    (h : List.Forall₂ R xs ys) {p : α → Bool} {q : β → Bool} (same : ∀ x y, R x y → p x = q y) :
    (∃ x y, xs.find? p = some x ∧ ys.find? q = some y ∧ R x y) ∨
      xs.find? p = none ∧ ys.find? q = none := by
  induction h with
  | nil => exact .inr ⟨rfl, rfl⟩
  | @cons x y xs ys first _ ih =>
    rw [find?_cons, find?_cons, ← same x y first]
    cases p x with
    | true => exact .inl ⟨x, y, rfl, rfl, first⟩
    | false => exact ih

namespace Simulates

variable {blocks : List Block} {choose : Nat → Nat} {scopes : List JumpScope}

theorem switch {wide : Bool} {targets : List Ident}
    {groups : List (CaseGroup Piece)} {body : Cases Chunk} (asks : test.Asks id a)
    (lands : ∀ w, ((Arms.of targets (groups.map CaseGroup.piece)).emit merge true w).Within blocks →
      List.Forall₂ (Lands blocks choose (.switch merge :: scopes) merge) body.entries
        (landings (groups.zip targets))) :
    Simulates blocks choose ((Flow.switch a wide body).run choose) scopes
      (.seq test (.switch id control (Codegen.switchTargets groups targets merge wide) merge
        (.of targets (groups.map CaseGroup.piece)))) := by
  obtain ⟨straight, hstraight, steps⟩ := asks
  intro d _ code' live here there fuel used
  have live' : (d.push straight).live = true := live
  rw [emit, hstraight.1, emit, live'] at there ⊢
  obtain ⟨arms, target⟩ := Written.within_begin.1 there
  obtain rfl := here.unique
    (within_push.1 (within_close.1 (Arms.within_of_emit _ arms)))
  have lands := lands _ arms
  have walks : ∀ m, walk blocks choose (0 + m) used (straight ++ [.selecting merge control,
      .choice id (Codegen.switchTargets groups targets merge wide)]) =
      (walk blocks choose m (used + 1) [.goto
        ((((landings (groups.zip targets)).find? fun e => e.1.isCaseOf wide (choose used)).map
          Prod.snd).getD ((((landings (groups.zip targets)).reverse.find?
            fun e => e.1 == .defaultLabel).map Prod.snd).getD merge))]).after
        ([Event.asked a].flatMap fun e => e.leaf.steps) := by
    intro m
    rw [Nat.zero_add, walk_straight hstraight.2, walk_merge rfl, Codegen.switchTargets, walk_choice,
      Trail.after_after, caseTarget_eq, defaultTarget_eq]
    simp [Event.leaf, steps]
  rw [Flow.run]
  refine Mirrors.after (n := 0) ?_ walks
  rw [Cases.first_eq, Cases.last_eq]
  have outcome : ∀ {label : Ident} {c : Course Chunk}, Mirrors blocks choose fuel (used + 1)
      [.goto label] (ways (.switch merge :: scopes) (some [.goto merge])) c →
      Mirrors blocks choose fuel (used + 1) [.goto label] (ways scopes (some code')) c.caught := by
    intro label c h
    have left : Mirrors blocks choose fuel (used + 1) [.goto label]
        (ways scopes (some [.goto merge])) c.caught := by
      refine h.caught (fun rest way => way) fun e code other way => ?_
      cases e with
      | leave => exact absurd rfl other
      | _ => exact way
    exact left.thenGoto (fun rest way => (Option.some.inj way).symm) target rfl widens_ways
  rcases exists_find?_of_forall2 lands (p := fun e => e.1.isCaseOf wide (choose used))
    (q := fun e => e.1.isCaseOf wide (choose used)) (fun x y h => by rw [h.1]) with
    ⟨e, x, found, found', -, follows⟩ | ⟨missing, missing'⟩
  · rw [found, found']
    exact outcome (follows fuel (used + 1))
  · rw [missing, missing']
    rcases exists_find?_of_forall2 (forall₂_reverse_iff.2 lands)
      (p := fun e => e.1 == .defaultLabel) (q := fun e => e.1 == .defaultLabel)
      (fun x y h => by rw [h.1]) with ⟨e, x, found, found', -, follows⟩ | ⟨none, none'⟩
    · rw [found, found']
      exact outcome (follows fuel (used + 1))
    · rw [none, none']
      exact outcome (Mirrors.here rfl)

end Simulates

section All

variable {blocks : List Block} {choose : Nat → Nat}

mutual

theorem Flow.simulates : (s : Flow Chunk) → ∀ {scopes : List JumpScope} {piece : Piece},
    s.Draws scopes piece → Simulates blocks choose (s.run choose) scopes piece
  | .skip, _, _, h => .straight h rfl
  | .leaf a, _, _, h => by
    obtain ⟨code, straight, steps⟩ := h
    exact .straight straight (by simpa [Event.leaf] using steps)
  | .stop a, _, _, h => by
    obtain ⟨code, last, follow, emits, plain, final, steps⟩ := h
    exact .stop emits plain final steps
  | .leave, _, _, h => by
    obtain ⟨scope, rest, follow, rfl, rfl⟩ := h
    exact .jump fun _ => rfl
  | .next, _, _, h => by
    obtain ⟨target, follow, found, rfl⟩ := h
    exact .jump fun _ => by simp [ways, found]
  | .seq s t, _, _, h => by
    obtain ⟨first, second, hs, ht, rfl⟩ := h
    exact .seq (s.simulates hs) (t.simulates ht)
  | .branch c s t, _, _, h => by
    obtain ⟨test, id, control, asks, h | h⟩ := h
    · obtain ⟨thenBlock, merge, body, hs, rfl, rfl⟩ := h
      exact .ifThen asks (s.simulates hs)
    · obtain ⟨thenBlock, elseBlock, merge, first, second, hs, ht, rfl⟩ := h
      exact .ifElse asks (s.simulates hs) (t.simulates ht)
  | .loop test testFirst s t, _, _, h => by
    obtain ⟨l, advice, body, rest, hs, ht, h⟩ := h
    have hs := s.simulates hs
    have ht := t.simulates ht
    cases test with
    | none =>
      obtain rfl := h
      exact .loop testFirst hs ht
    | some a =>
      cases testFirst with
      | true =>
        obtain ⟨block, code, id, asks, rfl⟩ := h
        exact .whileLoop asks hs ht
      | false =>
        obtain ⟨code, id, asks, rfl⟩ := h
        exact .loopTestLast asks hs ht
  | .switch a wide body, scopes, _, h => by
    obtain ⟨test, id, control, targets, merge, groups, asks, length, starts, rfl⟩ := h
    refine .switch asks fun w within => ?_
    exact body.lands starts length within

/-- What the statements of a group and those behind it do is mirrored from the middle of the
group. -/
theorem Cases.mirrors_through : (body : Cases Chunk) → ∀ {scopes : List JumpScope}
    {merge block : Ident} {g : CaseGroup Piece} {groups : List (CaseGroup Piece)} {w : Written}
    {later : List Ident} {code : List Instruction},
    Midway blocks scopes merge body g groups w block later → (g.draft w block).live = true →
    (g.draft w block).Within blocks code → ∀ fuel used,
    Mirrors blocks choose fuel used code (ways scopes (some [.goto merge]))
      (body.through choose fuel used)
  | .nil, _, _, _, _, _, _, _, _, h, live, here, fuel, used => by
    obtain rfl := here.unique h.last
    rw [live]
    exact .here rfl
  | .label l rest, scopes, merge, block, g, groups, w, later, code, h, live, here, fuel, used => by
    by_cases empty : g.statements.isEmpty
    · exact rest.mirrors_through (h.label empty) live here fuel used
    · obtain ⟨groups', block', later', -, -, ends, h⟩ := h.next empty
      obtain rfl := here.unique ends
      obtain ⟨code, start⟩ := h.exists_within
      rw [live]
      exact (rest.mirrors_through h rfl start fuel used).goto start.2
  | .step s rest, scopes, merge, block, g, groups, w, later, code, h, live, here, fuel, used => by
    obtain ⟨piece, draws, h⟩ := h.step
    obtain ⟨mid, between⟩ := h.exists_within
    have between' := between
    rw [Midway.draft_append] at between'
    refine (s.simulates draws _ _ _ live here between' fuel used).andThen (fun _ way => ?_)
      widens_ways
    obtain ⟨live', rfl⟩ := exists_way way
    refine rest.mirrors_through h ?_ between fuel _
    rw [Midway.draft_append]
    exact live'

/-- From the middle of a group on, every label leads to where its statements are. -/
theorem Cases.lands_of_midway : (body : Cases Chunk) → ∀ {scopes : List JumpScope}
    {merge block : Ident} {g : CaseGroup Piece} {groups : List (CaseGroup Piece)} {w : Written}
    {later : List Ident}, Midway blocks scopes merge body g groups w block later →
    ∃ rest, landings (groups.zip (block :: later)) = (g.labels.map fun l => (l, block)) ++ rest ∧
      List.Forall₂ (Lands blocks choose scopes merge) body.entries rest
  | .nil, _, _, _, _, _, _, _, h => by
    obtain rfl := h.lays
    exact ⟨[], rfl, .nil⟩
  | .label l body, scopes, merge, block, g, groups, w, later, h => by
    by_cases empty : g.statements.isEmpty
    · have h := h.label empty
      obtain ⟨rest, all, lands⟩ := body.lands_of_midway h
      refine ⟨(l, block) :: rest, by simp [all], .cons ⟨rfl, fun fuel used => ?_⟩ lands⟩
      obtain ⟨code, start⟩ := h.exists_within
      have fresh : CaseGroup.draft { g with labels := g.labels ++ [l] } w block =
          w.begin block true := by
        simp [CaseGroup.draft, CaseGroup.piece, List.isEmpty_iff.1 empty, Piece.all, emit,
          push, Written.begin]
      refine (body.mirrors_through h (fresh ▸ rfl) start fuel used).goto ?_
      rw [fresh] at start
      exact (Written.within_begin.1 start).2
    · obtain ⟨groups', block', later', rfl, rfl, -, h⟩ := h.next empty
      obtain ⟨rest, all, lands⟩ := body.lands_of_midway h
      refine ⟨(l, block') :: rest, ?_, .cons ⟨rfl, fun fuel used => ?_⟩ lands⟩
      · rw [zip_cons_cons, landings_cons, all]
        rfl
      · obtain ⟨code, start⟩ := h.exists_within
        exact (body.mirrors_through h rfl start fuel used).goto start.2
  | .step _ body, _, _, _, _, _, _, _, h => by
    obtain ⟨piece, -, h⟩ := h.step
    obtain ⟨rest, all, lands⟩ := body.lands_of_midway h
    exact ⟨rest, all, lands⟩

/-- Every label of a switch leads to where its statements are. -/
theorem Cases.lands : (body : Cases Chunk) → ∀ {scopes : List JumpScope} {merge : Ident}
    {groups : List (CaseGroup Piece)} {w : Written} {targets : List Ident},
    body.Starts scopes groups → targets.length = groups.length →
    ((Arms.of targets (groups.map CaseGroup.piece)).emit merge true w).Within blocks →
    List.Forall₂ (Lands blocks choose scopes merge) body.entries (landings (groups.zip targets))
  | .nil, _, _, _, _, _, h, _, _ => by
    obtain rfl := h
    exact .nil
  | .label l body, scopes, merge, groups, w, targets, h, length, within => by
    obtain ⟨labels, more, others, rfl⟩ := Cases.Lays.exists_head body h
    cases targets with
    | nil => cases length
    | cons block later =>
      have midway : Midway blocks scopes merge body { labels := [l] } _ w block later :=
        ⟨h, length.symm, within⟩
      obtain ⟨rest, all, lands⟩ := body.lands_of_midway midway
      rw [all]
      refine .cons ⟨rfl, fun fuel used => ?_⟩ lands
      obtain ⟨code, start⟩ := midway.exists_within
      exact (body.mirrors_through midway rfl start fuel used).goto start.2
  | .step _ _, _, _, _, _, _, h, _, _ => h.elim

end

end All

end ShaderGen
