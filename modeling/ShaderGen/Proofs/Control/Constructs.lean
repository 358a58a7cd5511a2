import ShaderGen.Proofs.Control.Writes
import ShaderGen.Proofs.Scope.Expression

/-!
# The pieces that constructs write

For every construct, which piece it writes, from the pieces that its parts write. So the blocks of a
construct are those that `Piece.emit` gives for it, with the labels that the construct has asked
for.
-/

namespace ShaderGen

open Builder List
open Steps (Ends ends_bind ends_then)

variable {live : Bool} {label merge : Ident} {blocks : List Ident} {body : Option Deferred}
  {s1 s2 : State} {u y : Unit} {target : Ident}

/-! ## Blocks of a construct -/

/-- A block is begun, a piece is written there, and control goes on to `target`. -/
def Written.side (w : Written) (label : Ident) (live : Bool) (piece : Piece) (target : Ident) :
    Written :=
  (piece.emit (w.begin label live)).close (onward (piece.emit (w.begin label live)).live target)

section Side

variable {s t : State} {v : Version} {site : Site v} {front : Block} {w : Written}
  {scopes : List JumpScope}
  {low : Ident} {α : Type} {Q : List JumpScope → α → Piece → Prop}

theorem State.Pauses.side {c : Codegen α} {a : α}
    (h : s.Pauses site front w scopes low) (begins : Ends (Codegen.beginAt label live) s u s1)
    (hc : Writes v c Q) (runs : Ends c s1 a s2)
    (finishes : Ends (liftM (finishBlock target) : Codegen Unit) s2 y t) :
    ∃ vars piece high, Q scopes a piece ∧
      t.Pauses site (front.append vars) (w.side label live piece target) scopes high ∧
      piece.Added scopes low high vars := by
  have begun := h.beginAt begins
  obtain ⟨vars, piece, high, holds, opens, added⟩ := hc _ _ _ _ _ _ _ _ begun runs
  exact ⟨vars, piece, high, holds, opens.finishBlock finishes, added⟩

end Side

namespace Codegen

variable {p : Program} {wide : Bool} {α : Type}

/-! ## Jumps -/

theorem terminate_writes {op : Opcode} {operands : List Operand} (final : op.isFinal) :
    Writes v (liftM (terminate op operands) : Codegen Unit)
      fun _ _ piece => ∃ follow, piece = .stop { op, operands } follow := by
  intro s u t site front d scopes low opens ends
  obtain ⟨b, inner, rfl⟩ := ends_lift Build ends
  obtain ⟨_, b1, first, inner⟩ := ends_bind inner
  have paused := opens.endWith (Embeds.lift_ends (m := Build) first)
  have begun := paused.beginDeadBlock (Embeds.lift_ends (m := Build) inner)
  refine ⟨[], .stop { op, operands } low, low + 1, ⟨low, rfl⟩, ?_,
    Nat.le_succ _, by simp, final, .range low 1⟩
  rw [Block.append_nil]
  exact begun

theorem jumpTo_ends {s t : State} {v : Version} {site : Site v} {front : Block} {d : Draft}
    {scopes : List JumpScope} {low : Ident} (opens : s.Opens site front d scopes low)
    (known : target ∈ exitsOf scopes) (ends : Ends (jumpTo target) s u t) :
    ∃ follow high, t.Opens site front ((Piece.jump target follow).emit d) scopes high ∧
      (Piece.jump target follow).Added scopes low high [] := by
  obtain ⟨_, s1, paused, ends⟩ := ends_then opens.finishBlock ends
  have begun := paused.beginDeadBlock ends
  exact ⟨low, low + 1, begun, Nat.le_succ _, by simp, known, .range low 1⟩

theorem leave_writes (span : Span) : Writes v (leave span) fun scopes _ piece =>
    ∃ scope rest follow, scopes = scope :: rest ∧ piece = .jump scope.merge follow := by
  intro s u t site front d scopes low opens ends
  replace ends := ends_get ends
  split at ends
  · cases ends
  · rename_i scope rest hscopes
    obtain rfl := opens.scopes.symm.trans hscopes
    obtain ⟨follow, high, jumped, added⟩ :=
      jumpTo_ends opens (by simp [exitsOf, JumpScope.labels]) ends
    exact ⟨[], _, high, ⟨scope, rest, follow, rfl, rfl⟩, by simpa using jumped, added⟩

theorem nextRound_writes (span : Span) : Writes v (nextRound span) fun scopes _ piece =>
    ∃ target follow, scopes.findSome? JumpScope.continueTarget? = some target ∧
      piece = .jump target follow := by
  intro s u t site front d scopes low opens ends
  replace ends := ends_get ends
  split at ends
  · cases ends
  · rename_i target found
    rw [opens.scopes] at found
    have known : target ∈ exitsOf scopes := by
      obtain ⟨scope, hscope, htarget⟩ := exists_of_findSome?_eq_some found
      exact mem_flatMap.2 ⟨scope, hscope, by simp [JumpScope.labels, htarget]⟩
    obtain ⟨follow, high, jumped, added⟩ := jumpTo_ends opens known ends
    exact ⟨[], _, high, ⟨target, follow, found, rfl⟩, by simpa using jumped, added⟩

/-! ## Selections -/

section Selection

variable {s t : State} {v : Version} {site : Site v} {front : Block} {d : Draft} {w : Written}
  {scopes : List JumpScope} {low : Ident} {Q : List JumpScope → Deferred → Piece → Prop}
  {condition : Ident}

theorem choose_ends {c thenBlock elseBlock : Ident} {advice : SelectionAdvice}
    (opens : s.Opens site front d scopes low)
    (ends : Ends (choose c thenBlock elseBlock merge advice) s u t) : t.Pauses site front
      (d.close [.selecting merge advice.mask, .fork c thenBlock elseBlock]) scopes low := by
  obtain ⟨_, s1, pushed, ends⟩ := ends_then opens.emitVoid ends
  have paused := pushed.endBlock ends
  rw [Draft.close_push] at paused
  exact paused

theorem branchBody_ends {reached : Bool} (paused : s.Pauses site front w scopes low)
    (hb : ∀ a ∈ body, Writes v a.exec fun scopes _ => Q scopes a)
    (ends : Ends (branchBody label merge live body) s reached t) :
    ∃ vars piece high, Part (Q scopes) body piece ∧
      reached = (piece.emit (w.begin label live)).live ∧
      t.Pauses site (front.append vars) (w.side label live piece merge) scopes high ∧
      piece.Added scopes low high vars := by
  obtain ⟨_, s1, begins, _, s2, runs, ends⟩ := ends_bind₂ ends
  have begun := paused.beginAt begins
  obtain ⟨vars, piece, high, holds, opens, added⟩ :=
    (Writes.optionForM hb) _ _ _ _ _ _ _ _ begun runs
  obtain ⟨live', s3, ⟨rfl, opens⟩, ends⟩ := ends_then opens.isLive ends
  obtain ⟨_, s4, finishes, ends⟩ := ends_bind ends
  cases ends
  exact ⟨vars, piece, high, holds, rfl, opens.finishBlock finishes, added⟩

/-- What the sides of an `if` statement write. -/
def BranchPiece (Q : Deferred → Piece → Prop) (condition : Ident)
    (thenBranch elseBranch : Option Deferred) (control : Nat) (piece : Piece) : Prop :=
  match elseBranch with
  | none => ∃ thenBlock merge body, Part Q thenBranch body ∧
    piece = .ifThen condition control thenBlock merge body
  | some other => ∃ thenBlock elseBlock merge first second, Part Q thenBranch first ∧
    Q other second ∧ piece = .ifElse condition control thenBlock elseBlock merge false first second

variable (advice : SelectionAdvice)

theorem branchOn_writes {thenBranch elseBranch : Option Deferred}
    (ht : ∀ a ∈ thenBranch, Writes v a.exec fun scopes _ => Q scopes a)
    (he : ∀ a ∈ elseBranch, Writes v a.exec fun scopes _ => Q scopes a) :
    Writes v (branchOn condition thenBranch elseBranch advice) fun scopes _ piece =>
      BranchPiece (Q scopes) condition thenBranch elseBranch advice.mask piece := by
  intro s u t site front d scopes low opens ends
  obtain ⟨live, s1, ⟨rfl, opens⟩, ends⟩ := ends_then opens.isLive ends
  obtain ⟨thenBlock, s2, ⟨rfl, opens⟩, ends⟩ := ends_then opens.fresh ends
  obtain ⟨merge, s3, ⟨rfl, opens⟩, ends⟩ := ends_then opens.fresh ends
  cases elseBranch with
  | none =>
    simp only [Option.isSome_none, Bool.false_eq_true, if_false, pure_bind] at ends
    obtain ⟨_, s4, paused, ends⟩ := ends_then (choose_ends opens) ends
    obtain ⟨reached, s5, first, ends⟩ := ends_bind ends
    obtain ⟨vars, body, high, holds, -, paused, added⟩ := branchBody_ends paused ht first
    have begun := paused.beginAt ends
    refine ⟨vars, .ifThen condition advice.mask thenBlock (thenBlock + 1) body, high,
      ⟨_, _, body, holds, rfl⟩, begun, .of_takes (added.takes.construct 2 fun x => ?_) added.valid⟩
    simp only [Piece.labels, range', count_append, count_cons, count_nil]
    omega
  | some other =>
    simp only [Option.isSome_some, if_true] at ends
    obtain ⟨elseBlock, s4, ⟨rfl, opens⟩, ends⟩ := ends_then opens.fresh ends
    obtain ⟨_, s5, paused, ends⟩ := ends_then (choose_ends opens) ends
    obtain ⟨reached, s6, ⟨vars, first, mid, holds, hreached, paused, added⟩, ends⟩ :=
      ends_then (branchBody_ends paused ht) ends
    obtain ⟨reached', s7, ⟨vars', second, high, holds', hreached', paused, added'⟩, ends⟩ :=
      ends_then (branchBody_ends paused he) ends
    have begun := paused.beginAt ends
    rw [hreached, hreached'] at begun
    refine ⟨vars ++ vars', .ifElse condition advice.mask thenBlock (thenBlock + 1 + 1)
      (thenBlock + 1) false first second, high, ⟨_, _, _, first, second, holds, holds', rfl⟩, ?_,
      .of_takes ((added.takes.seq added'.takes).construct 3 fun x => ?_)
      ⟨added.valid, added'.valid⟩⟩
    · rw [← Block.append_append]
      exact begun
    · simp only [Piece.labels, range', count_append, count_cons, count_nil]
      omega

theorem storeSide_ends {var type : Ident} {side : Deferred}
    (hv : Writes v (side.value p) fun _ _ _ => True) (paused : s.Pauses site front w scopes low)
    (ends : Ends (storeSide p label merge var type live side) s u t) : ∃ vars piece high,
      t.Pauses site (front.append vars) (w.side label live piece merge) scopes high ∧
      piece.Added scopes low high vars := by
  obtain ⟨_, s1, begins, v, s2, evaluates, ends⟩ := ends_bind₂ ends
  obtain ⟨id, s3, recasts, _, s4, stores, finishes⟩ := ends_bind₂ ends
  have begun := paused.beginAt begins
  obtain ⟨vars1, first, mid1, -, opens, added1⟩ := hv _ _ _ _ _ _ _ _ begun evaluates
  obtain ⟨vars2, second, mid2, -, opens, added2⟩ :=
    (recast_does (E := Builder.Building) v.id v.type type).runs.up.writes _ _ _ _ _ _ _ _
    opens recasts
  obtain ⟨vars3, third, high, -, opens, added3⟩ :=
    (storeTo_does (p := p) var id).runs.writes _ _ _ _ _ _ _ _ opens stores
  refine ⟨vars1 ++ (vars2 ++ vars3), .seq first (.seq second third), high, ?_,
    added1.seq (added2.seq added3)⟩
  rw [Block.append_append, Block.append_append] at opens
  exact opens.finishBlock finishes

theorem storeSides_writes {var type : Ident} {thenValue elseValue : Deferred}
    (ht : Writes v (thenValue.value p) fun _ _ _ => True)
    (he : Writes v (elseValue.value p) fun _ _ _ => True) :
    Writes v (storeSides p condition thenValue elseValue advice var type) fun _ _ _ => True := by
  intro s u t site front d scopes low opens ends
  obtain ⟨live, s1, ⟨rfl, opens⟩, ends⟩ := ends_then opens.isLive ends
  obtain ⟨thenBlock, s2, ⟨rfl, opens⟩, ends⟩ := ends_then opens.fresh ends
  obtain ⟨elseBlock, s3, ⟨rfl, opens⟩, ends⟩ := ends_then opens.fresh ends
  obtain ⟨merge, s4, ⟨rfl, opens⟩, ends⟩ := ends_then opens.fresh ends
  obtain ⟨_, s5, paused, ends⟩ := ends_then (choose_ends opens) ends
  obtain ⟨_, s6, ⟨vars, first, mid, paused, added⟩, ends⟩ :=
    ends_then (storeSide_ends ht paused) ends
  obtain ⟨_, s7, ⟨vars', second, high, paused, added'⟩, ends⟩ :=
    ends_then (storeSide_ends he paused) ends
  have begun := paused.beginAt ends
  refine ⟨vars ++ vars', .ifElse condition advice.mask thenBlock (thenBlock + 1)
    (thenBlock + 1 + 1) true first second, high, trivial, ?_,
    .of_takes ((added.takes.seq added'.takes).construct 3 fun x => ?_) ⟨added.valid, added'.valid⟩⟩
  · rw [← Block.append_append]
    exact begun
  · simp only [Piece.labels, range', count_append, count_cons, count_nil]
    omega

/-! ## Logical operators -/

theorem branchConditional_ends {c thenBlock elseBlock : Ident}
    (opens : s.Opens site front d scopes low)
    (ends : Ends (liftM (branchConditional c thenBlock elseBlock merge) : Codegen Unit) s u t) :
    t.Pauses site front (d.close [.selecting merge 0, .fork c thenBlock elseBlock]) scopes low := by
  obtain ⟨b, inner, rfl⟩ := ends_lift Build ends
  obtain ⟨_, b1, first, inner⟩ := ends_bind inner
  have pushed := opens.emitVoid (Embeds.lift_ends (m := Build) first)
  have paused := pushed.endBlock (Embeds.lift_ends (m := Build) inner)
  rw [Draft.close_push] at paused
  exact paused

theorem currentBlock_ends (opens : s.Opens site front d scopes low)
    (ends : Ends Codegen.currentBlock s label t) :
    label = d.label ∧ t.Opens site front d scopes low := by
  obtain ⟨b, s1, hget, ends⟩ := ends_bind ends
  cases hget
  split at ends
  · rename_i label' found
    cases ends
    exact ⟨Option.some.inj (found.symm.trans opens.at_.currentBlock), opens⟩
  · cases ends

theorem guardedLogical_writes {right : Deferred} {Q : List JumpScope → Value → Piece → Prop}
    (isAnd : Bool) (left : Value) (type : Ident) (h : Writes v (right.value p) Q) :
    Writes v (guardedLogical p isAnd left right type) fun scopes u piece =>
      ∃ rightBlock merge operand r, Q scopes r operand ∧
        piece = .logical left.id isAnd rightBlock merge operand ⟨u.type, u.id, r.id⟩ := by
  intro s u t site front d scopes low opens ends
  obtain ⟨leftBlock, s1, ⟨rfl, opens⟩, ends⟩ := ends_then (currentBlock_ends opens) ends
  obtain ⟨rightBlock, s2, ⟨rfl, opens⟩, ends⟩ := ends_then opens.fresh ends
  obtain ⟨merge, s3, ⟨rfl, opens⟩, ends⟩ := ends_then opens.fresh ends
  -- which way the condition leads does not matter for what follows
  obtain ⟨s4, paused, ends⟩ : ∃ s4 : State,
      s4.Pauses site front
        (d.close [.selecting (rightBlock + 1) 0,
          logicalFork left.id isAnd rightBlock (rightBlock + 1)]) scopes (rightBlock + 1 + 1) ∧
      Ends (do
        beginBlock rightBlock
        let r ← right.value p
        let rightEnd ← currentBlock
        branch (rightBlock + 1)
        beginBlock (rightBlock + 1)
        return { id := ← emitOn .phi type [left.id, d.label, r.id, rightEnd], type } :
          Codegen Value)
        s4 u t := by
    cases isAnd with
    | true | false =>
      obtain ⟨_, s4, forks, ends⟩ := ends_bind ends
      exact ⟨s4, branchConditional_ends opens forks, ends⟩
  obtain ⟨_, s5, begun, ends⟩ := ends_then paused.beginBlock ends
  obtain ⟨r, s6, ⟨vars, operand, high, holds, opens, added⟩, ends⟩ :=
    ends_then (h _ _ _ _ _ _ _ _ begun) ends
  obtain ⟨rightEnd, s7, ⟨rfl, opens⟩, ends⟩ := ends_then (currentBlock_ends opens) ends
  obtain ⟨_, s8, paused, ends⟩ := ends_then opens.endBlock ends
  obtain ⟨_, s9, begun, ends⟩ := ends_then paused.beginBlock ends
  obtain ⟨id, s10, emits, ends⟩ := ends_bind ends
  cases ends
  obtain ⟨b, inner, rfl⟩ := ends_lift Build emits
  obtain ⟨rfl, k, -, hk, rfl⟩ := ends_emit inner
  refine ⟨vars, .logical left.id isAnd rightBlock (rightBlock + 1) operand _, high + 1,
    ⟨_, _, operand, r, holds, rfl⟩, ⟨begun.at_.pushed hk _ _, begun.scopes,
      congrArg (· + 1) begun.bound⟩, .of_takes ?_ added.valid⟩
  have taken : operand.Takes (rightBlock + 2) (high + 1) vars :=
    ⟨Nat.le_succ_of_le added.le, added.locals, added.spread.mono (Nat.le_refl _) (Nat.le_succ _)⟩
  refine taken.construct 2 fun x => ?_
  simp only [Piece.labels, range', count_append, count_cons, count_nil]
  omega

end Selection

/-! ## Loops -/

@[simp] theorem ids_loopAdvice (advice : LoopAdvice) (version : Version) :
    Operand.ids (advice.operands version) = [] := by
  simp [LoopAdvice.operands]

section Loop

variable {s t : State} {v : Version} {site : Site v} {front : Block} {d : Draft} {w : Written}
  {scopes : List JumpScope} {low : Ident} {Q : List JumpScope → Deferred → Piece → Prop}
  {P : List JumpScope → Deferred → Value → Piece → Prop} {terminal : Option Deferred} {x : Unit}

theorem loopRounds_ends {l : LoopLabels} (paused : s.Pauses site front w scopes low)
    (hb : ∀ a ∈ body, Writes v a.exec fun scopes _ => Q scopes a)
    (hn : ∀ a ∈ terminal, Writes v a.exec fun scopes _ => Q scopes a)
    (inner : Ends (within (.loop l.merge l.next) do
      beginAt l.body live
      body.forM Deferred.exec
      finishBlock l.next) s u s1) (begins : Ends (beginAt l.next live) s1 y s2)
    (runs : Ends (terminal.forM Deferred.exec) s2 x t) :
    ∃ vars bodyPiece rest high, Part (Q (.loop l.merge l.next :: scopes)) body bodyPiece ∧
      Part (Q scopes) terminal rest ∧
      t.Opens site (front.append vars)
        (rest.emit ((w.side l.body live bodyPiece l.next).begin l.next live)) scopes high ∧
      (Piece.seq bodyPiece rest).Takes low high vars ∧
      bodyPiece.Valid (l.merge :: l.next :: exitsOf scopes) ∧ rest.Valid (exitsOf scopes) := by
  obtain ⟨_, s3, enters, within⟩ := ends_bind inner
  cases enters
  obtain ⟨_, s4, bodyEnds, leaves⟩ := ends_bind within
  cases leaves
  obtain ⟨_, s5, begins', _, s6, runs', finishes⟩ := ends_bind₂ bodyEnds
  obtain ⟨vars, bodyPiece, mid, holds, paused, added⟩ :=
    (paused.enter (.loop l.merge l.next)).side begins' (Writes.optionForM hb) runs' finishes
  have begun := paused.leave.beginAt begins
  obtain ⟨vars', rest, high, holds', opens, added'⟩ :=
    (Writes.optionForM hn) _ _ _ _ _ _ _ _ begun runs
  refine ⟨vars ++ vars', bodyPiece, rest, high, holds, holds', ?_, added.takes.seq added'.takes,
    added.valid, added'.valid⟩
  rw [← Block.append_append]
  exact opens

/-- What a loop writes. -/
def LoopPiece (inner : LoopLabels → Deferred → Piece → Prop) (Q : Deferred → Piece → Prop)
    (P : Deferred → Value → Piece → Prop) (test body terminal : Option Deferred) (testFirst : Bool)
    (piece : Piece) : Prop :=
  ∃ l advice bodyPiece rest, Part (inner l) body bodyPiece ∧ Part Q terminal rest ∧
    match test, testFirst with
    | some test, true => ∃ block c code, P test c code ∧
      piece = .whileLoop l advice block code c.id bodyPiece rest
    | some test, false => ∃ c code, P test c code ∧
      piece = .loop l advice bodyPiece (.seq rest code) (some c.id)
    | none, _ => piece = .loop l advice bodyPiece rest none

theorem loopTest_ends {test : Deferred} {again : Ident} (opens : s.Opens site front d scopes low)
    (ht : Writes v (test.value p) fun scopes => P scopes test)
    (ends : Ends (loopTest p test again merge) s u t) : ∃ vars c piece high, P scopes test c piece ∧
      t.Pauses site (front.append vars) ((piece.emit d).close [.fork c.id again merge]) scopes
        high ∧ piece.Added scopes low high vars := by
  obtain ⟨c, s1, ⟨vars, piece, high, holds, opens, added⟩, ends⟩ :=
    ends_then (ht _ _ _ _ _ _ _ _ opens) ends
  exact ⟨vars, c, piece, high, holds, opens.endBlock ends, added⟩

theorem loopHeader_ends {header bodyBlock next : Ident} {s3 s4 s5 s6 s7 : State}
    {advice : LoopAdvice} {b : Builder} (opens : s.Opens site front d scopes low)
    (fresh1 : Ends (liftM fresh : Codegen Ident) s header s1)
    (fresh2 : Ends (liftM fresh : Codegen Ident) s1 bodyBlock s2)
    (fresh3 : Ends (liftM fresh : Codegen Ident) s2 next s3)
    (fresh4 : Ends (liftM fresh : Codegen Ident) s3 merge s4)
    (finishes : Ends (liftM (finishBlock header) : Codegen Unit) s4 u s5)
    (begins : Ends (beginAt header d.live) s5 y s6) (reads : Ends builder s6 b s7)
    (emits : Ends (liftM (emitVoid .loopMerge
      (.ref merge :: .ref next :: advice.operands b.version)) : Codegen Unit) s7 x t) :
    header = low ∧ bodyBlock = low + 1 ∧ next = low + 2 ∧ merge = low + 3 ∧
      t.Opens site front ((d.move (onward d.live header) header d.live).push
        [.looping merge next (advice.operands b.version)]) scopes (low + 4) := by
  obtain ⟨h1, opens⟩ := opens.fresh fresh1
  obtain ⟨h2, opens⟩ := opens.fresh fresh2
  obtain ⟨h3, opens⟩ := opens.fresh fresh3
  obtain ⟨h4, opens⟩ := opens.fresh fresh4
  have begun := (opens.finishBlock finishes).beginAt begins
  cases reads
  exact ⟨h1, h2, h3, h4, begun.emitVoid emits⟩

theorem loop_writes {test : Option Deferred} (testFirst : Bool) (advice : LoopAdvice)
    (ht : ∀ a ∈ test, Writes v (a.value p) fun scopes => P scopes a)
    (hb : ∀ a ∈ body, Writes v a.exec fun scopes _ => Q scopes a)
    (hn : ∀ a ∈ terminal, Writes v a.exec fun scopes _ => Q scopes a) :
    Writes v (loop p test body terminal testFirst advice) fun scopes _ =>
      LoopPiece (fun l => Q (.loop l.merge l.next :: scopes)) (Q scopes) (P scopes) test body
        terminal testFirst := by
  intro s u t site front d scopes low opens ends
  obtain ⟨live, s1, ⟨rfl, opens⟩, ends⟩ := ends_then opens.isLive ends
  obtain ⟨header, s2, fresh1, bodyBlock, s3, fresh2, ends⟩ := ends_bind₂ ends
  obtain ⟨next, s4, fresh3, merge, s5, fresh4, ends⟩ := ends_bind₂ ends
  obtain ⟨_, s6, finishes, _, s7, begins, ends⟩ := ends_bind₂ ends
  obtain ⟨b, s8, reads', _, s9, emits, ends⟩ := ends_bind₂ ends
  obtain ⟨hh, hbody, hnext, hmerge, opens⟩ :=
    loopHeader_ends opens fresh1 fresh2 fresh3 fresh4 finishes begins reads' emits
  let l : LoopLabels := ⟨header, bodyBlock, next, merge⟩
  obtain ⟨v, s10, leaves, _, s11, inner, ends⟩ := ends_bind₂ ends
  obtain ⟨_, s12, begins', _, s13, runs, ends⟩ := ends_bind₂ ends
  obtain ⟨x, s14, returns, closes⟩ := ends_bind ends
  cases test with
  | none =>
    have leaves : Ends (liftM (branch bodyBlock) : Codegen Unit) s9 v s10 := by
      cases testFirst <;> exact leaves
    have returns : Ends (liftM (branch header) : Codegen Unit) s13 x s14 := by
      cases testFirst <;> exact returns
    have paused := opens.endBlock leaves
    rw [Draft.close_push] at paused
    obtain ⟨vars, bodyPiece, rest, high, holds, holds', opens, taken, valid, valid'⟩ :=
      loopRounds_ends (l := l) paused hb hn inner begins' runs
    have begun := (opens.endBlock returns).beginAt closes
    refine ⟨vars, .loop l (advice.operands b.version) bodyPiece rest none, high,
      ⟨l, _, bodyPiece, rest, holds, holds', rfl⟩, begun,
      .of_takes (taken.construct 4 fun x => ?_) ⟨ids_loopAdvice _ _, valid, valid'⟩⟩
    simp only [Piece.labels, l, hh, hbody, hnext, hmerge, range', count_append,
      count_cons, count_nil, Nat.add_assoc, Nat.reduceAdd]
    omega
  | some test =>
    cases testFirst with
    | false =>
      have paused := opens.endBlock leaves
      rw [Draft.close_push] at paused
      obtain ⟨vars, bodyPiece, rest, mid, holds, holds', opens, taken, valid, valid'⟩ :=
        loopRounds_ends (l := l) paused hb hn inner begins' runs
      obtain ⟨vars', c, code, high, holds'', paused, added⟩ :=
        loopTest_ends opens (ht test rfl) returns
      have begun := paused.beginAt closes
      refine ⟨vars ++ vars', .loop l (advice.operands b.version) bodyPiece (.seq rest code)
        (some c.id), high, ⟨l, _, bodyPiece, rest, holds, holds', c, code, holds'', rfl⟩, ?_,
        .of_takes ((taken.seq added.takes).construct 4 fun x => ?_)
          ⟨ids_loopAdvice _ _, valid, valid', added.valid⟩⟩
      · rw [← Block.append_append]
        exact begun
      · simp only [Piece.labels, l, hh, hbody, hnext, hmerge, range', count_append,
          count_cons, count_nil, Nat.add_assoc, Nat.reduceAdd]
        omega
    | true =>
      obtain ⟨block, s15, ⟨hblock, opens⟩, leaves⟩ := ends_then opens.fresh leaves
      obtain ⟨_, s16, paused, leaves⟩ := ends_then opens.endBlock leaves
      rw [Draft.close_push] at paused
      obtain ⟨_, s17, begins'', leaves⟩ := ends_bind leaves
      obtain ⟨vars', c, code, mid, holds'', paused, added⟩ :=
        loopTest_ends (paused.beginAt begins'') (ht test rfl) leaves
      obtain ⟨vars, bodyPiece, rest, high, holds, holds', opens, taken, valid, valid'⟩ :=
        loopRounds_ends (l := l) paused hb hn inner begins' runs
      have begun := (opens.endBlock returns).beginAt closes
      refine ⟨vars' ++ vars, .whileLoop l (advice.operands b.version) block code c.id
        bodyPiece rest,
        high, ⟨l, _, bodyPiece, rest, holds, holds', block, c, code, holds'', rfl⟩, ?_,
        .of_takes ((added.takes.seq taken).construct 5 fun x => ?_)
          ⟨ids_loopAdvice _ _, added.valid, valid, valid'⟩⟩
      · rw [← Block.append_append]
        exact begun
      · simp only [Piece.labels, l, hh, hbody, hnext, hmerge, hblock, range', count_append,
          count_cons, count_nil, Nat.add_assoc, Nat.reduceAdd]
        omega

end Loop

/-! ## Switches -/

theorem mem_ids_targets {entries : List (CaseGroup α × Ident)} {t : Ident}
    (h : t ∈ Operand.ids (entries.flatMap fun e => e.1.targets e.2 wide)) :
    ∃ e ∈ entries, e.2 = t := by
  obtain ⟨operand, target, isRef⟩ := mem_filterMap.1 h
  obtain ⟨e, he, target⟩ := mem_flatMap.1 target
  obtain ⟨label, -, target⟩ := mem_flatMap.1 target
  refine ⟨e, he, ?_⟩
  cases label with
  | caseLabel value =>
    unfold caseLiteral at target
    cases wide <;> rcases mem_pair.1 target with rfl | rfl <;> simp_all
  | _ => cases target

/-- The operands by which a switch leads to its groups. -/
def switchTargets {α : Type} (groups : List (CaseGroup α)) (blocks : List Ident) (merge : Ident)
    (wide : Bool) : List Operand :=
  .ref ((((groups.zip blocks).filter fun entry => entry.1.isDefault).getLast?.map
    Prod.snd).getD merge) :: (groups.zip blocks).flatMap fun entry => entry.1.targets entry.2 wide

theorem mem_ids_switchTargets {groups : List (CaseGroup α)} {t : Ident}
    (h : t ∈ Operand.ids (switchTargets groups blocks merge wide)) : t = merge ∨ t ∈ blocks := by
  have known : ∀ e ∈ groups.zip blocks, e.2 ∈ blocks := fun e he => (of_mem_zip he).2
  rw [switchTargets, Operand.ids_ref, mem_cons] at h
  rcases h with rfl | h
  · cases last : ((groups.zip blocks).filter fun entry => entry.1.isDefault).getLast? with
    | none => exact .inl rfl
    | some e => exact .inr (known e (mem_filter.1 (mem_of_getLast? last)).1)
  · obtain ⟨e, he, rfl⟩ := mem_ids_targets h
    exact .inr (known e he)

end Codegen

/-- The arms with the given labels and code. -/
def Arms.of : List Ident → List Piece → Arms
  | label :: labels, piece :: pieces => .cons label piece (of labels pieces)
  | _, _ => .nil

namespace Arms

variable {labels : List Ident} {pieces : List Piece}

theorem heads_of (h : labels.length = pieces.length) : (Arms.of labels pieces).heads = labels := by
  induction labels generalizing pieces with
  | nil => rfl
  | cons label labels ih =>
    cases pieces with
    | nil => cases h
    | cons piece pieces => simp [Arms.of, heads, ih (Nat.succ.inj h)]

theorem start_of (h : labels.length = pieces.length) (merge : Ident) :
    (Arms.of labels pieces).start merge = labels.head?.getD merge := by
  cases labels with
  | nil => rfl
  | cons label labels =>
    cases pieces with
    | nil => cases h
    | cons piece pieces => rfl

theorem count_labels_of (h : labels.length = pieces.length) (x : Ident) :
    (Arms.of labels pieces).labels.count x =
      labels.count x + (Piece.all pieces).labels.count x := by
  induction labels generalizing pieces with
  | nil =>
    obtain rfl := eq_nil_of_length_eq_zero h.symm
    rfl
  | cons label labels ih =>
    cases pieces with
    | nil => cases h
    | cons piece pieces =>
      have rest := ih (Nat.succ.inj h)
      simp only [Arms.of, Arms.labels, count_cons, count_append, Piece.all, Piece.labels, rest]
      omega

theorem valid_of {exits : List Ident} (h : ∀ piece ∈ pieces, piece.Valid exits) :
    (Arms.of labels pieces).Valid exits := by
  induction labels generalizing pieces with
  | nil => cases pieces <;> trivial
  | cons label labels ih =>
    cases pieces with
    | nil => trivial
    | cons piece pieces =>
      exact ⟨h piece mem_cons_self, ih fun q hq => h q (mem_cons_of_mem _ hq)⟩

end Arms

namespace Codegen

section Switch

variable {s t : State} {v : Version} {site : Site v} {front : Block} {d : Draft} {w : Written}
  {scopes : List JumpScope} {low : Ident} {Q : List JumpScope → Deferred → Piece → Prop}

/-- What the statements of a group write. -/
def GroupPiece (Q : Deferred → Piece → Prop) (g : CaseGroup Deferred) (piece : Piece) : Prop :=
  ∃ pieces, List.Forall₂ Q g.statements pieces ∧ piece = .all pieces

theorem groupBodies_ends {groups : List (CaseGroup Deferred)}
    (length : blocks.length = groups.length)
    (h : ∀ g ∈ groups, ∀ a ∈ g.statements, Writes v a.exec fun scopes _ => Q scopes a)
    (paused : s.Pauses site front w scopes low)
    (ends : Ends (groupBodies live merge groups blocks) s u t) :
    ∃ vars pieces high, List.Forall₂ (GroupPiece (Q scopes)) groups pieces ∧
      t.Pauses site (front.append vars) ((Arms.of blocks pieces).emit merge live w) scopes high ∧
      (Piece.all pieces).Takes low high vars ∧ ∀ piece ∈ pieces, piece.Valid (exitsOf scopes) := by
  induction groups generalizing blocks s front w low with
  | nil =>
    obtain rfl := eq_nil_of_length_eq_zero length
    cases ends
    exact ⟨[], [], low, .nil, by simpa [Arms.of, Arms.emit] using paused,
      (Piece.Added.nothing scopes low).takes, by simp⟩
  | cons g groups ih =>
    cases blocks with
    | nil => cases length
    | cons block blocks =>
      obtain ⟨_, s1, begins, _, s2, runs, ends2⟩ := ends_bind₂ ends
      obtain ⟨_, s3, ⟨vars, piece, mid, holds, paused, added⟩, ends3⟩ :=
        ends_then (paused.side begins (Writes.forM (h g mem_cons_self)) runs) ends2
      obtain ⟨vars', pieces, high, holds', paused, taken, valid⟩ :=
        ih (Nat.succ.inj length) (fun g hg => h g (mem_cons_of_mem _ hg)) paused ends3
      have count : blocks.length = pieces.length :=
        (Nat.succ.inj length).trans holds'.length_eq
      refine ⟨vars ++ vars', piece :: pieces, high, .cons holds holds', ?_, added.takes.seq taken,
        forall_mem_cons.2 ⟨added.valid, valid⟩⟩
      rw [← Block.append_append, Arms.of, Arms.emit, Arms.start_of count]
      exact paused

theorem freshAll_ends {β : Type} {list : List β} (opens : s.Opens site front d scopes low)
    (ends : Ends (list.mapM fun _ => (liftM fresh : Codegen Ident)) s blocks t) :
    blocks = range' low list.length ∧
      t.Opens site front d scopes (low + list.length) := by
  induction list generalizing s t low blocks with
  | nil =>
    cases ends
    exact ⟨rfl, opens⟩
  | cons a rest ih =>
    rw [mapM_cons] at ends
    obtain ⟨x, s1, ⟨rfl, opens⟩, ends1⟩ := ends_then opens.fresh ends
    obtain ⟨xs, s2, ⟨rfl, opens⟩, ends2⟩ := ends_then (ih opens) ends1
    cases ends2
    refine ⟨rfl, ?_⟩
    rw [length_cons, Nat.add_comm rest.length, ← Nat.add_assoc]
    exact opens

/-- What a switch writes. -/
def SwitchPiece (inner : Ident → Deferred → Piece → Prop) (selector : Ident) (control : Nat)
    (wide : Bool) (groups : List (CaseGroup Deferred)) (piece : Piece) : Prop :=
  ∃ blocks merge pieces, blocks.length = groups.length ∧
    List.Forall₂ (GroupPiece (inner merge)) groups pieces ∧
    piece = .switch selector control (switchTargets groups blocks merge wide) merge
      (.of blocks pieces)

theorem switchOn_writes {selector : Ident} {body : List Deferred} (wide : Bool)
    (advice : SelectionAdvice) (hb : ∀ a ∈ body, Writes v a.exec fun scopes _ => Q scopes a) :
    Writes v (switchOn selector wide body advice) fun scopes _ =>
      SwitchPiece (fun merge => Q (.switch merge :: scopes)) selector advice.mask wide
        (caseGroups (fun d => d.node.label?) body) := by
  intro s u t site front d scopes low opens ends
  obtain ⟨live, s1, ⟨rfl, opens⟩, ends1⟩ := ends_then opens.isLive ends
  extract_lets groups at ends1
  obtain ⟨blocks, s2, ⟨hblocks, opens⟩, ends2⟩ := ends_then (freshAll_ends opens) ends1
  obtain ⟨merge, s3, ⟨hmerge, opens⟩, ends3⟩ := ends_then opens.fresh ends2
  obtain ⟨_, s4, selects, _, s5, chooses, ends5⟩ := ends_bind₂ ends3
  have paused := (opens.emitVoid selects).endBlock chooses
  rw [Draft.close_push] at paused
  obtain ⟨_, s6, ⟨_, s7, enters, within⟩, closes⟩ := ends_then ends_bind ends5
  cases enters
  obtain ⟨_, s8, runs, leaves⟩ := ends_bind within
  cases leaves
  have length : blocks.length = groups.length := by rw [hblocks, length_range']
  obtain ⟨vars, pieces, high, holds, paused, taken, valid⟩ :=
    groupBodies_ends length (fun g hg a ha => hb a (CaseGroup.mem_of_mem_caseGroups hg ha))
      (paused.enter (.switch merge)) runs
  have begun := paused.leave.beginAt closes
  have count : blocks.length = pieces.length := length.trans holds.length_eq
  refine ⟨vars, .switch selector advice.mask (switchTargets groups blocks merge wide) merge
    (.of blocks pieces), high, ⟨blocks, merge, pieces, length, holds, rfl⟩, begun,
    .of_takes (taken.construct (groups.length + 1) fun x => ?_)
      ⟨fun x hx => ?_, Arms.valid_of valid⟩⟩
  · rw [Piece.labels, count_append, Arms.count_labels_of count, hblocks, hmerge,
      range'_concat, Nat.one_mul, count_append]
    omega
  · rw [Arms.heads_of count]
    exact mem_ids_switchTargets hx

end Switch

end Codegen

end ShaderGen
