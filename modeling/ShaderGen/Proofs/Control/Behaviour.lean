import ShaderGen.Proofs.Control.Program
import ShaderGen.Proofs.Control.Simulation

/-!
# The code of statements and their flow

The code of a statement, if its leaves stay inside of one block each, is drawn for the flow of the
statement: `Noted` says so, and it holds of all statements by recursion over their nodes
(`Codegen.code_notes`). The leaves of that flow are the instructions that have been written for the
leaves of the statement.
-/

namespace ShaderGen

open List Piece Node
open Steps (Ends)

variable {info : Info} {op : Opcode} {v : Version}

/-! ## Leaves -/

section Straight

variable {v : Version} {α β : Type} {c : Codegen α}

/-- In modules of the version, the step begins the given number of blocks wherever it is run in a
function. -/
def BeginsBlocks (v : Version) (count : Nat) (c : Codegen α) : Prop :=
  ∀ s a t (site : Site v) front d scopes low, s.Opens site front d scopes low → Ends c s a t →
    t.builder.blockCount = s.builder.blockCount + count

/-- A run of the step with the given result has taken the code of a function from one draft to
another one. -/
def Makes (v : Version) (c : Codegen α) (a : α) (change : Draft → Draft) : Prop :=
  ∃ (s t : State) (site : Site v) (front : Block) (d : Draft) (scopes : List JumpScope)
    (low high : Ident) (vars : List Instruction), s.Opens site front d scopes low ∧ Ends c s a t ∧
      t.Opens site (front.append vars) (change d) scopes high

theorem Writes.inspect {Q : List JumpScope → α → Piece → Prop} (h : Writes v c Q) :
    Writes v c fun scopes a piece => Q scopes a piece ∧ Makes v c a piece.emit ∧
      piece.Valid (exitsOf scopes) ∧ ∀ count, BeginsBlocks v count c →
      piece.labels.length = count := by
  intro s a t site front d scopes low opens ends
  obtain ⟨vars, piece, high, holds, opens', added⟩ := h s a t site front d scopes low opens ends
  refine ⟨vars, piece, high, ⟨holds, ⟨s, t, site, front, d, scopes, low, high, vars, opens, ends,
    opens'⟩, added.valid, fun count begins => ?_⟩, opens', added⟩
  have blocks := begins s a t site front d scopes low opens ends
  rw [opens'.at_.blockCount, opens.at_.blockCount, piece.length_emit] at blocks
  omega

theorem Piece.exists_straight (piece : Piece) {exits : List Ident} (valid : piece.Valid exits)
    (labels : piece.labels = []) : ∃ code, piece.Straight code := by
  induction piece using @Piece.rec _ fun _ => True
  case plain code => exact ⟨code, fun _ => rfl, fun i hi => Opcode.isFlow_of_isControl (valid i hi)⟩
  case seq first second one two =>
    obtain ⟨none, none'⟩ := append_eq_nil_iff.1 labels
    obtain ⟨code, emits, plain⟩ := one valid.1 none
    obtain ⟨code', emits', plain'⟩ := two valid.2 none'
    refine ⟨code ++ code', fun d => ?_, fun i hi => ?_⟩
    · rw [emit, emits, emits']
      simp [Draft.push]
    · exact (mem_append.1 hi).elim (plain i) (plain' i)
  case nil | cons => trivial
  all_goals simp [Piece.labels] at labels

theorem Writes.straight (h : Writes v c fun _ _ _ => True) :
    Writes v c fun _ a piece => BeginsBlocks v 0 c →
      ∃ code, piece.Straight code ∧ Makes v c a (·.push code) := by
  refine h.inspect.mono fun scopes a piece ⟨_, makes, valid, count⟩ begins => ?_
  obtain ⟨code, straight⟩ :=
    piece.exists_straight valid (eq_nil_of_length_eq_zero (count 0 begins))
  have change : piece.emit = (·.push code) := funext straight.1
  exact ⟨code, straight, change ▸ makes⟩

/-- The piece ends the function or the invocation by an instruction of the kind. -/
def Piece.Stops (op : Opcode) (piece : Piece) : Prop :=
  ∃ (before : Piece) (last : Instruction) (follow : Ident), last.op = op ∧
    (∀ d, piece.emit d = (before.emit d).move [last] follow false) ∧
    piece.labels = before.labels ++ [follow] ∧
    ∀ exits, piece.Valid exits → before.Valid exits ∧ last.op.isFinal

theorem Piece.stops_stop (last : Instruction) (follow : Ident) :
    (Piece.stop last follow).Stops last.op :=
  ⟨.plain [], last, follow, rfl, fun d => by simp [emit, Draft.push], rfl,
    fun _ valid => ⟨by simp [Valid], valid⟩⟩

theorem Piece.Stops.seq {second : Piece} (h : second.Stops op) (first : Piece) :
    (seq first second).Stops op := by
  obtain ⟨before, last, follow, hop, emits, labels, valid⟩ := h
  refine ⟨.seq first before, last, follow, hop, fun d => ?_, ?_, fun exits hvalid => ?_⟩
  · rw [emit, emits, emit]
  · simp [Piece.labels, labels]
  · obtain ⟨hbefore, final⟩ := valid exits hvalid.2
    exact ⟨⟨hvalid.1, hbefore⟩, final⟩

theorem Writes.thenStops {x : Codegen α} {f : α → Codegen β} {P : List JumpScope → α → Piece → Prop}
    (hx : Writes v x P) (hf : ∀ a, Writes v (f a) fun _ _ => Stops op) :
    Writes v (x >>= f) fun _ _ => Stops op := by
  refine (Writes.bind hx hf).mono ?_
  rintro scopes r piece ⟨a, first, second, -, stops, rfl⟩
  exact stops.seq first

theorem Writes.stop (h : Writes v c fun _ _ => Stops op) :
    Writes v c fun _ a piece => BeginsBlocks v 1 c → ∃ code last follow,
      (∀ d, piece.emit d = d.move (code ++ [last]) follow false) ∧
        (∀ i ∈ code, i.op.isFlow = false) ∧ last.op.isFinal ∧ last.op = op ∧
        Makes v c a (·.move (code ++ [last]) follow false) := by
  refine h.inspect.mono fun scopes a piece ⟨stops, makes, valid, count⟩ begins => ?_
  obtain ⟨before, last, follow, hop, emits, labels, hvalid⟩ := stops
  obtain ⟨hbefore, final⟩ := hvalid _ valid
  have none : before.labels = [] := by
    have one := count 1 begins
    rw [labels, length_append, length_singleton] at one
    exact eq_nil_of_length_eq_zero (by omega)
  obtain ⟨code, straight, plain⟩ := before.exists_straight hbefore none
  have whole : ∀ d, piece.emit d = d.move (code ++ [last]) follow false := fun d => by
    rw [emits, straight, Draft.move, Draft.close_push]
    rfl
  have change : piece.emit = (·.move (code ++ [last]) follow false) := funext whole
  exact ⟨code, last, follow, whole, plain, final, hop, change ▸ makes⟩

end Straight

/-- The instruction by which a jump ends the function or the invocation. -/
def Node.ending? (v : Version) : Node → Option Opcode
  | .jump _ .ret none => some .ret
  | .jump _ .ret (some _) => some .returnValue
  | .jump _ .kill _ => some (if v.atLeast .v1_6 then .terminateInvocation else .kill)
  | .jump _ .terminateInvocation _ => some .terminateInvocation
  | .jump _ .ignoreIntersection _ => some .ignoreIntersectionKHR
  | .jump _ .terminateRay _ => some .terminateRayKHR
  | _ => none

namespace Program

variable (p : Program)

/-- The code for a condition or a selector. -/
def condition (n : Node) : Codegen Value := Deferred.value p ⟨n, Codegen.code p n⟩

/-- What is executed or evaluated stays inside of one block, up to the end of the function or of the
invocation. -/
def Plain : Event Node → Prop
  | .did n => BeginsBlocks p.target.version 0 (Codegen.code p n)
  | .asked n => BeginsBlocks p.target.version 0 (p.condition n)
  | .stopped n => BeginsBlocks p.target.version 1 (Codegen.code p n)

/-- The steps of a leaf are the instructions that have been written for it. -/
def Notes : Event Chunk → Prop
  | .did a => ∃ outcome code, Makes p.target.version (Codegen.code p a.node) outcome (·.push code) ∧
    a.steps = code.map .did
  | .asked a => ∃ value code, Makes p.target.version (p.condition a.node) value (·.push code) ∧
    a.steps = code.map .did ++ [.asked value.id]
  | .stopped a => ∃ outcome code last follow,
    Makes p.target.version (Codegen.code p a.node) outcome (·.move (code ++ [last]) follow false) ∧
      a.node.ending? p.target.version = some last.op ∧ a.steps = code.map .did ++ [.ended last]

/-- The piece is the code of the flow, if its leaves stay inside of one block each. -/
def Noted (s : Flow Node) (scopes : List JumpScope) (piece : Piece) : Prop :=
  s.All p.Plain → ∃ t : Flow Chunk, t.map Chunk.node = s ∧ t.All p.Notes ∧ t.Draws scopes piece

/-- The piece evaluates the condition. -/
def Evaluated (n : Node) (value : Value) (piece : Piece) : Prop :=
  p.Plain (.asked n) → ∃ a : Chunk, a.node = n ∧ p.Notes (.asked a) ∧ piece.Asks value.id a

end Program

variable {nodes : List Node} {pieces : List Piece} {n : Option Node}

section Noted

variable {p : Program} {scopes : List JumpScope}

theorem straight_nil : (plain []).Straight [] := ⟨fun _ => rfl, by simp⟩

theorem Program.noted_skip : p.Noted .skip scopes (.plain []) :=
  fun _ => ⟨.skip, rfl, trivial, straight_nil⟩

theorem Program.Noted.seq {s t : Flow Node} {first second : Piece} (hs : p.Noted s scopes first)
    (ht : p.Noted t scopes second) : p.Noted (.seq s t) scopes (.seq first second) := by
  intro plain
  obtain ⟨s', rfl, notes, draws⟩ := hs plain.1
  obtain ⟨t', rfl, notes', draws'⟩ := ht plain.2
  exact ⟨.seq s' t', rfl, ⟨notes, notes'⟩, first, second, draws, draws', rfl⟩

theorem Program.noted_all
    (h : List.Forall₂ (fun n piece => p.Noted n.flow scopes piece) nodes pieces) :
    p.Noted (flowAll nodes) scopes (.all pieces) := by
  induction h with
  | nil => exact noted_skip
  | cons first _ ih => exact first.seq ih

theorem Program.noted_option {piece : Piece}
    (h : Part (fun n piece => p.Noted n.flow scopes piece) n piece) :
    p.Noted (flowOption n) scopes piece := by
  cases n with
  | none =>
    obtain rfl := h
    exact noted_skip
  | some n => exact h

end Noted

/-! ## Groups of a switch -/

namespace CaseGroup

variable {α β : Type}

/-- A group with code for its statements. -/
def Codes (Q : α → Piece → Prop) (g : CaseGroup α) (g' : CaseGroup Piece) : Prop :=
  g'.labels = g.labels ∧ List.Forall₂ Q g.statements g'.statements

theorem exists_codes {Q : Deferred → Piece → Prop} {groups : List (CaseGroup Deferred)}
    (h : List.Forall₂ (Codegen.GroupPiece Q) groups pieces) :
    ∃ coded, List.Forall₂ (Codes Q) groups coded ∧ pieces = coded.map CaseGroup.piece := by
  induction h with
  | nil => exact ⟨[], .nil, rfl⟩
  | @cons g piece _ _ first _ ih =>
    obtain ⟨statements, each, rfl⟩ := first
    obtain ⟨coded, rest, rfl⟩ := ih
    exact ⟨⟨g.labels, statements⟩ :: coded, .cons ⟨rfl, each⟩ rest, rfl⟩

/-- A group of which only its labels are left. -/
def bare (g : CaseGroup α) : CaseGroup Unit := { labels := g.labels }

theorem switchTargets_bare (groups : List (CaseGroup α)) (blocks : List Ident) (merge : Ident)
    (wide : Bool) : Codegen.switchTargets (groups.map bare) blocks merge wide =
      Codegen.switchTargets groups blocks merge wide := by
  simp only [Codegen.switchTargets, zip_map_left, filter_map, getLast?_map,
    Option.map_map, flatMap_map]
  rfl

theorem map_bare {Q : α → Piece → Prop} {groups : List (CaseGroup α)}
    {coded : List (CaseGroup Piece)} (h : List.Forall₂ (Codes Q) groups coded) :
    coded.map bare = groups.map bare := by
  induction h with
  | nil => rfl
  | cons first _ ih => simp [bare, first.1, ih]

end CaseGroup

/-- Two lists that are related, the first of which ends with the given element. -/
theorem exists_of_forall₂_concat {α β : Type} {R : α → β → Prop} {list : List α} {a : α}
    {others : List β} (h : List.Forall₂ R (list ++ [a]) others) :
    ∃ before b, List.Forall₂ R list before ∧ R a b ∧ others = before ++ [b] := by
  induction list generalizing others with
  | nil =>
    obtain ⟨b, rest, hb, hrest, rfl⟩ := forall₂_cons_left_iff.1 h
    obtain rfl := forall₂_nil_left_iff.1 hrest
    exact ⟨[], b, .nil, hb, rfl⟩
  | cons c list ih =>
    obtain ⟨d, rest, hd, hrest, rfl⟩ := forall₂_cons_left_iff.1 h
    obtain ⟨before, b, all, hb, rfl⟩ := ih hrest
    exact ⟨d :: before, b, .cons hd all, hb, rfl⟩

section Switch

variable {p : Program} {scopes : List JumpScope}

theorem Program.noted_cases (nodes : List Node) : ∀ {g : CaseGroup Deferred}
    {coded : List (CaseGroup Piece)}, List.Forall₂
      (CaseGroup.Codes fun d piece => p.Noted d.node.flow scopes piece)
      (CaseGroup.groupsFrom (fun d => d.node.label?) g (Codegen.deferAll p nodes)) coded →
    (flowCases nodes).All p.Plain → ∃ (statements : List Piece) (body : Cases Chunk),
      List.Forall₂ (fun d piece => p.Noted d.node.flow scopes piece) g.statements statements ∧
      body.map Chunk.node = flowCases nodes ∧ body.All p.Notes ∧
      body.Lays scopes ⟨g.labels, statements⟩ coded := by
  induction nodes with
  | nil =>
    intro g coded h _
    obtain ⟨g', _, ⟨labels, each⟩, rest, rfl⟩ := forall₂_cons_left_iff.1 h
    obtain rfl := forall₂_nil_left_iff.1 rest
    obtain ⟨_, statements⟩ := g'
    obtain rfl := labels
    exact ⟨statements, .nil, each, rfl, trivial, rfl⟩
  | cons n nodes ih =>
    intro g coded h plain
    rw [Codegen.deferAll, CaseGroup.groupsFrom] at h
    rw [flowCases] at plain ⊢
    cases label : n.label? with
    | none =>
      simp only [label] at h plain ⊢
      obtain ⟨statements, body, each, same, notes, lays⟩ := ih h plain.2
      obtain ⟨before, piece, earlier, drawn, rfl⟩ := exists_of_forall₂_concat each
      obtain ⟨s, hs, notes', draws⟩ := drawn plain.1
      refine ⟨before, .step s body, earlier, ?_, ⟨notes', notes⟩, piece, draws, lays⟩
      rw [Cases.map, hs, same]
    | some l =>
      simp only [label] at h plain ⊢
      split at h
      · rename_i empty
        obtain ⟨statements, body, each, same, notes, lays⟩ := ih h plain
        have none : statements.isEmpty := by
          rw [List.isEmpty_iff.1 empty] at each
          simp [forall₂_nil_left_iff.1 each]
        refine ⟨statements, .label l body, each, by rw [Cases.map, same], notes, ?_⟩
        rw [Cases.Lays, if_pos none]
        exact lays
      · rename_i nonempty
        obtain ⟨g', later, ⟨labels, each⟩, rest, rfl⟩ := forall₂_cons_left_iff.1 h
        obtain ⟨statements, body, none, same, notes, lays⟩ := ih rest plain
        obtain rfl := forall₂_nil_left_iff.1 none
        obtain ⟨_, done⟩ := g'
        obtain rfl := labels
        have some : ¬ done.isEmpty := by
          intro empty
          rw [List.isEmpty_iff.1 empty] at each
          exact nonempty (by simp [forall₂_nil_right_iff.1 each])
        refine ⟨done, .label l body, each, by rw [Cases.map, same], notes, ?_⟩
        rw [Cases.Lays, if_neg some]
        exact ⟨later, lays, rfl⟩

theorem Program.noted_starts (nodes : List Node) : ∀ {coded : List (CaseGroup Piece)}, List.Forall₂
      (CaseGroup.Codes fun d piece => p.Noted d.node.flow scopes piece)
      (caseGroups (fun d => d.node.label?) (Codegen.deferAll p nodes)) coded →
    (flowCases nodes).trim.All p.Plain → ∃ body : Cases Chunk,
      body.map Chunk.node = (flowCases nodes).trim ∧ body.All p.Notes ∧
      body.Starts scopes coded := by
  induction nodes with
  | nil =>
    intro coded h _
    obtain rfl := forall₂_nil_left_iff.1 h
    exact ⟨.nil, rfl, trivial, rfl⟩
  | cons n nodes ih =>
    intro coded h plain
    rw [Codegen.deferAll, CaseGroup.caseGroups_cons] at h
    rw [flowCases] at plain ⊢
    cases label : n.label? with
    | none =>
      simp only [label] at h plain ⊢
      exact ih h plain
    | some l =>
      simp only [label] at h plain ⊢
      obtain ⟨statements, body, none, same, notes, lays⟩ := noted_cases nodes h plain
      obtain rfl := forall₂_nil_left_iff.1 none
      exact ⟨.label l body, by rw [Cases.map, same]; rfl, notes, lays⟩

end Switch

/-! ## Code of statements -/

section Reading

variable {α : Type}

theorem Writes.builder {f : Builder → Codegen α}
    {Q : List JumpScope → α → Piece → Prop} (h : ∀ b, b.version = v → Writes v (f b) Q) :
    Writes v (Codegen.builder >>= f) Q := by
  intro s a t site front d scopes low opens ends
  obtain ⟨b, s1, reads, ends⟩ := Steps.ends_bind ends
  cases reads
  exact h s.builder opens.at_.version s a t site front d scopes low opens ends

theorem Writes.get {f : State → Codegen α} {Q : List JumpScope → α → Piece → Prop}
    (h : ∀ s, Writes v (f s) Q) : Writes v (MonadState.get >>= f) Q := by
  intro s a t site front d scopes low opens ends
  obtain ⟨s', s1, reads, ends⟩ := Steps.ends_bind ends
  cases reads
  exact h s s a t site front d scopes low opens ends

theorem Writes.sequence {nodes : List Deferred} {Q : List JumpScope → Deferred → Piece → Prop}
    (h : ∀ d ∈ nodes, Writes v d.run fun scopes _ => Q scopes d) (outcome : Outcome) :
    Writes v (nodes.foldlM (fun _ d => d.run) outcome) fun scopes _ piece =>
      ∃ pieces, List.Forall₂ (Q scopes) nodes pieces ∧ piece = .all pieces := by
  induction nodes generalizing outcome with
  | nil => exact Writes.pure.mono fun _ _ _ h => ⟨[], .nil, h.2⟩
  | cons d nodes ih =>
    rw [foldlM_cons]
    refine (Writes.bind (h d mem_cons_self)
      fun outcome => ih (fun e he => h e (mem_cons_of_mem d he)) outcome).mono ?_
    rintro scopes _ piece ⟨_, first, _, hfirst, ⟨pieces, all, rfl⟩, rfl⟩
    exact ⟨first :: pieces, .cons hfirst all, rfl⟩

theorem Writes.exec {d : Deferred} {Q : List JumpScope → Piece → Prop}
    (h : Writes v d.run fun scopes _ => Q scopes) : Writes v d.exec fun scopes _ => Q scopes :=
  Writes.discard h

end Reading

namespace Codegen

variable {p : Program}

theorem condition_writes (p : Program) (n : Node) :
    Writes p.target.version (p.condition n) fun _ _ _ => True :=
  (code_does p n.symbols n fun _ h => h).value.runs.writes

/-- The code of a leaf is straight, if it stays inside of one block. -/
theorem leaf_notes {n : Node} (leaf : n.flow = .leaf n) :
    Writes p.target.version (code p n) fun scopes _ piece => p.Noted n.flow scopes piece := by
  refine (code_does p n.symbols n fun _ h => h).runs.writes.straight.mono
    fun scopes outcome piece straight plain => ?_
  rw [leaf] at plain ⊢
  obtain ⟨code, straight, makes⟩ := straight plain
  exact ⟨.leaf ⟨n, code.map .did⟩, rfl, ⟨outcome, code, makes, rfl⟩, code, straight, rfl⟩

/-- The code of a condition is straight, if it stays inside of one block. -/
theorem condition_notes (n : Node) :
    Writes p.target.version (p.condition n) fun _ value piece => p.Evaluated n value piece := by
  refine (condition_writes p n).straight.mono fun scopes value piece straight plain => ?_
  obtain ⟨code, straight, makes⟩ := straight plain
  exact ⟨⟨n, code.map .did ++ [.asked value.id]⟩, rfl, ⟨value, code, makes, rfl⟩, code, straight,
    rfl⟩

theorem terminate_stops (operands : List Operand) (final : op.isFinal) :
    Writes v (liftM (Builder.terminate op operands) : Codegen Unit)
      fun _ _ => Stops op := by
  refine (terminate_writes final).mono fun scopes _ piece ⟨follow, written⟩ => ?_
  rw [written]
  exact stops_stop { op, operands } follow

theorem returnStatement_stops (value : Option Node) (span : Span) :
    Writes p.target.version (returnStatement p (deferOption p value) span)
      fun _ _ => Stops (if value.isSome then .returnValue else .ret) := by
  refine Writes.get fun s => ?_
  cases value with
  | none => exact terminate_stops [] rfl
  | some n =>
    cases s.returnType with
    | none => exact fun _ _ _ _ _ _ _ _ _ ends => by cases ends
    | some declared =>
      have does := code_does p n.symbols n fun _ h => h
      refine .thenStops (bodyType_does (E := Quiet p) n.symbols declared).runs.writes fun type => ?_
      refine .thenStops does.value.runs.writes fun value => ?_
      split
      · exact terminate_stops _ rfl
      · refine .thenStops (Builder.localVariable_runs _ type).up.writes fun var => ?_
        refine .thenStops (AccessPath.storeByParts_does _ value.id value.type).runs.up.writes
          fun _ => ?_
        exact .thenStops (loadFrom_does (p := p) var type).runs.writes fun id =>
          terminate_stops _ rfl

theorem jump_stops (kind : Jump) (value : Option Node) (info : Info)
    (h : (Node.jump info kind value).ending? p.target.version = some op) :
    Writes p.target.version (code p (.jump info kind value)) fun _ _ => Stops op := by
  refine Writes.discard (Q := fun _ => Stops op) ?_
  cases kind with
  | ret =>
    have same : (if value.isSome then Opcode.returnValue else .ret) = op := by
      cases value <;> exact Option.some.inj h
    exact same ▸ returnStatement_stops value info.span
  | kill =>
    refine Writes.builder fun b version => ?_
    obtain rfl := Option.some.inj h
    rw [version]
    exact terminate_stops [] (by split <;> rfl)
  | terminateInvocation =>
    obtain rfl := Option.some.inj h
    exact .thenStops (Builder.useExtension_provides _).runs.up.writes fun _ =>
      terminate_stops [] rfl
  | ignoreIntersection | terminateRay =>
    obtain rfl := Option.some.inj h
    exact terminate_stops [] rfl
  | leave | next | demote | caseLabel _ | defaultLabel => cases h

theorem stop_notes (kind : Jump) (value : Option Node) (info : Info)
    (stop : (Node.jump info kind value).flow = .stop (.jump info kind value))
    (h : (Node.jump info kind value).ending? p.target.version = some op) :
    Writes p.target.version (code p (.jump info kind value))
      fun scopes _ piece => p.Noted (Node.jump info kind value).flow scopes piece := by
  refine (jump_stops kind value info h).stop.mono fun scopes outcome piece stops plain => ?_
  rw [stop] at plain ⊢
  obtain ⟨code, last, follow, emits, straight, final, hop, makes⟩ := stops plain
  refine ⟨.stop ⟨.jump info kind value, code.map .did ++ [.ended last]⟩, rfl,
    ⟨outcome, code, last, follow, makes, hop ▸ h, rfl⟩, code, last, follow, emits, straight, final,
    rfl⟩

/-- The code of an operand is noted. -/
def DeferredNotes (p : Program) (d : Deferred) : Prop :=
  Writes p.target.version d.run fun scopes _ piece => p.Noted d.node.flow scopes piece

theorem sequence_notes (h : ∀ d ∈ deferAll p nodes, DeferredNotes p d) : Writes p.target.version
      (code p (.sequence info nodes)) fun scopes _ piece => p.Noted (flowAll nodes)
      scopes piece := by
  refine (Writes.sequence h .void).mono ?_
  rintro scopes _ _ ⟨pieces, all, rfl⟩
  rw [deferAll_eq_map, forall₂_map_left_iff] at all
  exact Program.noted_all all

theorem noted_deferOption {scopes : List JumpScope} {piece : Piece}
    (h : Part (fun d piece => p.Noted d.node.flow scopes piece) (deferOption p n) piece) :
    p.Noted (flowOption n) scopes piece := by
  apply Program.noted_option
  cases n <;> exact h

theorem selection_notes {c : Node} {thenBranch elseBranch : Option Node} (both : Bool)
    (advice : SelectionAdvice) (void : info.type.isVoid)
    (ht : ∀ d ∈ deferOption p thenBranch, DeferredNotes p d)
    (he : ∀ d ∈ deferOption p elseBranch, DeferredNotes p d) : Writes p.target.version
      (code p (.select info c thenBranch elseBranch both advice)) fun scopes _ piece =>
        p.Noted (.branch c (flowOption thenBranch) (flowOption elseBranch)) scopes
          piece := by
  have branches : ∀ condition, Writes p.target.version
      (branchOn condition (deferOption p thenBranch) (deferOption p elseBranch) advice) _ :=
    fun condition => branchOn_writes advice (fun d hd => (ht d hd).exec) fun d hd => (he d hd).exec
  have statement := Writes.bind (condition_notes (p := p) c) fun value => branches value.id
  rw [code]
  unfold selection
  rw [if_pos void]
  refine (Writes.discard (Q := fun scopes piece => ∃ value first second,
    p.Evaluated c value first ∧ BranchPiece (fun d piece => p.Noted d.node.flow scopes piece)
      value.id (deferOption p thenBranch) (deferOption p elseBranch) advice.mask second ∧
        piece = .seq first second) statement).mono ?_
  rintro scopes _ _ ⟨value, test, piece, evaluated, branches, rfl⟩ ⟨asked, plain, plain'⟩
  obtain ⟨a, rfl, notes, asks⟩ := evaluated asked
  cases elseBranch with
  | none =>
    obtain ⟨thenBlock, merge, body, first, rfl⟩ := branches
    obtain ⟨s, same, notes', draws⟩ := noted_deferOption first plain
    refine ⟨.branch a s .skip, by rw [Flow.map, same]; rfl, ⟨notes, notes', trivial⟩, test, _, _,
      asks, .inl ⟨thenBlock, merge, body, draws, rfl, rfl⟩⟩
  | some other =>
    obtain ⟨thenBlock, elseBlock, merge, body, body', first, second, rfl⟩ := branches
    obtain ⟨s, same, notes', draws⟩ := noted_deferOption first plain
    obtain ⟨s', same', notes'', draws'⟩ := second plain'
    refine ⟨.branch a s s', by rw [Flow.map, same, same']; rfl, ⟨notes, notes', notes''⟩,
      test, _, _, asks, .inr ⟨thenBlock, elseBlock, merge, body, body', draws, draws', rfl⟩⟩

theorem loop_notes {test body terminal : Option Node} (testFirst : Bool) (advice : LoopAdvice)
    (hb : ∀ d ∈ deferOption p body, DeferredNotes p d)
    (ht : ∀ d ∈ deferOption p terminal, DeferredNotes p d) : Writes p.target.version
      (code p (.loop info test body terminal testFirst advice)) fun scopes _ piece =>
        p.Noted (.loop test testFirst (flowOption body) (flowOption terminal)) scopes
          piece := by
  have tests : ∀ d ∈ deferOption p test, Writes p.target.version (d.value p)
      fun _ value piece => p.Evaluated d.node value piece := by
    cases test with
    | none => exact fun d hd => by cases hd
    | some n => exact fun d hd => by cases hd; exact condition_notes n
  refine (Writes.discard (Q := fun scopes => LoopPiece
    (fun l d piece => p.Noted d.node.flow (.loop l.merge l.next :: scopes) piece)
    (fun d piece => p.Noted d.node.flow scopes piece)
    (fun d value piece => p.Evaluated d.node value piece) (deferOption p test)
    (deferOption p body) (deferOption p terminal) testFirst)
    (loop_writes testFirst advice tests (fun d hd => (hb d hd).exec)
      fun d hd => (ht d hd).exec)).mono ?_
  rintro scopes _ _ ⟨l, mask, bodyPiece, rest, first, second, written⟩ ⟨asked, plain, plain'⟩
  obtain ⟨s, same, notes, draws⟩ := noted_deferOption first plain
  obtain ⟨s', same', notes', draws'⟩ := noted_deferOption second plain'
  cases test with
  | none =>
    exact ⟨.loop none testFirst s s', by rw [Flow.map, same, same']; rfl,
      ⟨by simp, notes, notes'⟩, l, mask, bodyPiece, rest, draws, draws', written⟩
  | some n =>
    cases testFirst with
    | true =>
      obtain ⟨block, value, code, evaluated, rfl⟩ := written
      obtain ⟨a, rfl, asks, hasks⟩ := evaluated (asked n rfl)
      exact ⟨.loop (some a) true s s', by rw [Flow.map, same, same']; rfl,
        ⟨fun b hb => by cases hb; exact asks, notes, notes'⟩, l, mask, bodyPiece, rest, draws,
        draws', block, code, value.id, hasks, rfl⟩
    | false =>
      obtain ⟨value, code, evaluated, rfl⟩ := written
      obtain ⟨a, rfl, asks, hasks⟩ := evaluated (asked n rfl)
      exact ⟨.loop (some a) false s s', by rw [Flow.map, same, same']; rfl,
        ⟨fun b hb => by cases hb; exact asks, notes, notes'⟩, l, mask, bodyPiece, rest, draws,
        draws', code, value.id, hasks, rfl⟩

theorem switch_notes {selector : Node} {body : List Node} (advice : SelectionAdvice)
    (hb : ∀ d ∈ deferAll p body, DeferredNotes p d) : Writes p.target.version
      (code p (.switch info selector body advice)) fun scopes _ piece =>
        p.Noted (.switch selector (selector.type.bitWidth == 64) (flowCases body).trim) scopes
          piece := by
  have cases : ∀ word, Writes p.target.version
      (switchOn word (selector.type.bitWidth == 64) (deferAll p body) advice) _ :=
    fun word => switchOn_writes (selector.type.bitWidth == 64) advice fun d hd => (hb d hd).exec
  have statement := Writes.bind (condition_notes (p := p) selector) fun value => cases value.id
  refine (Writes.discard (Q := fun scopes piece => ∃ value first second,
    p.Evaluated selector value first ∧ SwitchPiece
      (fun merge d piece => p.Noted d.node.flow (.switch merge :: scopes) piece) value.id
      advice.mask (selector.type.bitWidth == 64)
      (caseGroups (fun d => d.node.label?) (deferAll p body)) second ∧
        piece = .seq first second) statement).mono ?_
  rintro scopes _ _ ⟨value, test, _, evaluated, ⟨blocks, merge, pieces, length, groups, rfl⟩, rfl⟩
    ⟨asked, plain⟩
  obtain ⟨a, rfl, notes, asks⟩ := evaluated asked
  obtain ⟨coded, codes, rfl⟩ := CaseGroup.exists_codes groups
  obtain ⟨cases, same, notes', starts⟩ := Program.noted_starts body codes plain
  refine ⟨.switch a _ cases, by rw [Flow.map, same], ⟨notes, notes'⟩, test, value.id, advice.mask,
    blocks, merge, coded, asks, length.trans codes.length_eq, starts, ?_⟩
  rw [← CaseGroup.switchTargets_bare coded, CaseGroup.map_bare codes, CaseGroup.switchTargets_bare]

mutual

/-- The code of a statement is the code of its flow, if its leaves stay inside of one block each. -/
theorem code_notes (p : Program) : (n : Node) → Writes p.target.version (code p n)
    fun scopes _ piece => p.Noted n.flow scopes piece
  | .sequence _ nodes => sequence_notes (deferAll_notes p nodes)
  | .select info condition thenBranch elseBranch both advice => by
    by_cases void : info.type.isVoid
    · rw [Node.flow, if_pos void]
      exact selection_notes both advice void (deferOption_notes p thenBranch)
        (deferOption_notes p elseBranch)
    · exact leaf_notes (by rw [Node.flow, if_neg void])
  | .switch _ _ body advice => switch_notes advice (deferAll_notes p body)
  | .loop _ _ body terminal testFirst advice =>
    loop_notes testFirst advice (deferOption_notes p body) (deferOption_notes p terminal)
  | .jump info kind value => by
    cases kind with
    | leave =>
      refine (Writes.discard (Q := fun scopes piece => ∃ scope rest follow,
        scopes = scope :: rest ∧ piece = .jump scope.merge follow) (leave_writes info.span)).mono ?_
      exact fun scopes _ piece jumps _ => ⟨.leave, rfl, trivial, jumps⟩
    | next =>
      refine (Writes.discard (Q := fun scopes piece => ∃ target follow,
        scopes.findSome? JumpScope.continueTarget? = some target ∧ piece = .jump target follow)
        (nextRound_writes info.span)).mono ?_
      exact fun scopes _ piece jumps _ => ⟨.next, rfl, trivial, jumps⟩
    | ret => cases value <;> exact stop_notes .ret _ info rfl rfl
    | kill | terminateInvocation | ignoreIntersection | terminateRay =>
      exact stop_notes _ value info rfl rfl
    | demote | caseLabel _ | defaultLabel => exact leaf_notes rfl
  | .symbol .. | .constant .. | .binary .. | .unary .. | .swizzle .. | .call .. | .construct ..
  | .intrinsic .. | .declare .. => leaf_notes rfl

theorem deferAll_notes (p : Program) : (nodes : List Node) →
    ∀ d ∈ deferAll p nodes, DeferredNotes p d
  | [], _, hd => by cases hd
  | n :: rest, d, hd => by
    rcases mem_cons.1 hd with rfl | hd
    · exact code_notes p n
    · exact deferAll_notes p rest d hd

theorem deferOption_notes (p : Program) : (n : Option Node) →
    ∀ d ∈ deferOption p n, DeferredNotes p d
  | none, _, hd => by cases hd
  | some n, _, hd => by
    cases hd
    exact code_notes p n

end

end Codegen

end ShaderGen
