import ShaderGen.Proofs.Scope.Blocks

/-!
# Code generation writes pieces

`Writes v c Q` says that `c`, started in a block of a function, writes a piece for which `Q` holds,
given the constructs around it. Steps that are known to keep a ledger write some piece
(`Runs.writes`).
-/

namespace ShaderGen

open Steps (Ends ends_bind ends_then)

variable {b : Builder} {before : List Fact} {u : Unit} {high low : Ident} {vars : List Instruction}
  {α : Type}

/-! ## Where code generation stands -/

/-- Code generation writes a function, inside of the given constructs. The ids from `bound` on are
free. -/
structure State.Opens (s : State) {v : Version} (site : Site v) (front : Block) (d : Draft)
    (scopes : List JumpScope) (bound : Ident) : Prop where
  at_ : s.builder.At site front d
  scopes : s.scopes = scopes
  bound : s.builder.output.bound = bound

/-- As `State.Opens`, but no block takes instructions. -/
structure State.Pauses (s : State) {v : Version} (site : Site v) (front : Block) (w : Written)
    (scopes : List JumpScope) (bound : Ident) : Prop where
  between : s.builder.Between site front w
  scopes : s.scopes = scopes
  bound : s.builder.output.bound = bound

/-- The labels that jumps out of constructs go to. -/
def exitsOf (scopes : List JumpScope) : List Ident := scopes.flatMap JumpScope.labels

/-- A piece that has been written inside of the given constructs, with ids from a range, and
variables that have been added to those of the function. -/
structure Piece.Added (piece : Piece) (scopes : List JumpScope) (low high : Ident)
    (vars : List Instruction) : Prop where
  le : low ≤ high
  locals : ∀ i ∈ vars, i.IsLocal
  valid : piece.Valid (exitsOf scopes)
  spread : Spread low high piece.labels

/-- In a module of the given version, a step writes a piece for which `Q` holds. -/
def Writes (v : Version) {α : Type} (c : Codegen α) (Q : List JumpScope → α → Piece → Prop) :
    Prop :=
  ∀ s a t (site : Site v) front d scopes low, s.Opens site front d scopes low → Ends c s a t →
    ∃ vars piece high, Q scopes a piece ∧
      t.Opens site (front.append vars) (piece.emit d) scopes high ∧ piece.Added scopes low high vars

section Steps

variable {s t : State} {v : Version} {site : Site v} {front : Block} {d : Draft} {w : Written}
  {scopes : List JumpScope} {low : Ident} {α β : Type} {mid : Ident} {vars' : List Instruction}

theorem Builder.At.current? (h : b.At site front d) :
    b.current? = some { site.head with blocks := front :: d.all } := by
  simp [Builder.current?, h.inFunction, h.functions, Site.functions]

theorem Builder.Between.current? (h : b.Between site front w) :
    b.current? = some { site.head with blocks := front :: w.blocks } := by
  simp [Builder.current?, h.inFunction, h.functions, Site.functions]

/-- A ledger that watches no uses. -/
def Ledger.lax (straight : Prop) : Ledger where
  strict := False
  free := False
  straight := straight
  program := default
  owed := []
  avail _ _ := False
  uses _ := False
  seen _ := False
  bound _ := False
  typed _ := False
  referenced _ := False
  underway _ := False

/-- Where uses are not watched, the facts only say that there is a place for code. -/
theorem Fact.holds_lax (isOpen : b.block.isSome) (inside : b.current?.isSome) (φ : Fact) :
    φ.Holds (.lax False) b := by
  cases φ with
  | body p xs => exact ⟨isOpen, inside, fun straight => straight, fun hs => hs.elim⟩
  | _ => exact fun hs => hs.elim

theorem Fact.allHold_lax (straight : Prop) (noBody : ∀ φ ∈ before, ∀ p xs, φ ≠ .body p xs) :
    AllHold (.lax straight) b before := by
  intro φ hφ
  cases φ with
  | body p xs => exact absurd rfl (noBody _ hφ p xs)
  | _ => exact fun hs => hs.elim

theorem Builder.At.blockCount (h : b.At site front d) : b.blockCount = d.blocks.length + 2 := by
  simp [Builder.blockCount, h.functions, Site.functions, Draft.all]

/-- Where there is a place for code, whatever keeps the ledger leaves the constructs around it. -/
theorem Runs.same {before : List Fact} {c : Codegen α} {after : α → List Fact} {s t : State} {a : α}
    (h : Runs before c after) (isOpen : s.builder.block.isSome) (inside : s.builder.current?.isSome)
    (ends : Ends c s a t) : s.Same t := by
  obtain ⟨l, -, -, same, -⟩ := h (.lax False) s a t (fun hs => hs.elim)
    (fun φ _ => φ.holds_lax isOpen inside) ends
  exact same

theorem Runs.writes {c : Codegen α} {after : α → List Fact} (h : Runs before c after) :
    Writes v c fun _ _ _ => True := by
  intro s a t site front d scopes low opens ends
  have same := h.same (by simp [opens.at_.block]) (by simp [opens.at_.current?]) ends
  obtain ⟨vars, piece, at_, locals, valid, spread⟩ := same.emits.inside site front d opens.at_
  refine ⟨vars, piece, t.builder.output.bound, trivial, ⟨at_, same.scopes.trans opens.scopes, rfl⟩,
    opens.bound ▸ same.emits.bound, locals, ?_, opens.bound ▸ spread⟩
  simpa [exitsOf, State.exits, opens.scopes] using valid

theorem Runs.writes_straight {c : Codegen α} {after : α → List Fact} (h : Runs before c after)
    (noBody : ∀ φ ∈ before, ∀ p xs, φ ≠ .body p xs) :
    Writes v c fun _ _ piece => piece.labels = [] := by
  intro s a t site front d scopes low opens ends
  obtain ⟨vars, piece, high, -, opens', added⟩ := h.writes s a t site front d scopes low opens ends
  refine ⟨vars, piece, high, ?_, opens', added⟩
  obtain ⟨l, -, grows, -, -⟩ := h (.lax True) s a t (fun hs => hs.elim)
    (Fact.allHold_lax True noBody) ends
  have le : t.builder.blockCount ≤ s.builder.blockCount := grows.quiet trivial id
  rw [opens'.at_.blockCount, opens.at_.blockCount, piece.length_emit] at le
  exact List.eq_nil_of_length_eq_zero (by omega)

theorem Writes.mono {c : Codegen α} {P Q : List JumpScope → α → Piece → Prop} (h : Writes v c P)
    (imp : ∀ scopes a piece, P scopes a piece → Q scopes a piece) : Writes v c Q := by
  intro s a t site front d scopes low opens ends
  obtain ⟨vars, piece, high, holds, rest⟩ := h s a t site front d scopes low opens ends
  exact ⟨vars, piece, high, imp scopes a piece holds, rest⟩

theorem Piece.Added.nothing (scopes : List JumpScope) (low : Ident) :
    (Piece.plain []).Added scopes low low [] :=
  ⟨Nat.le_refl _, by simp, by simp [Piece.Valid], .nil⟩

/-- What a piece that has been written takes, wherever it may stand. -/
structure Piece.Takes (piece : Piece) (low high : Ident) (vars : List Instruction) : Prop where
  le : low ≤ high
  locals : ∀ i ∈ vars, i.IsLocal
  spread : Spread low high piece.labels

theorem Piece.Added.takes {piece : Piece}
    (h : piece.Added scopes low high vars) : piece.Takes low high vars := ⟨h.le, h.locals, h.spread⟩

theorem Piece.Added.of_takes {piece : Piece}
    (h : piece.Takes low high vars) (valid : piece.Valid (exitsOf scopes)) :
    piece.Added scopes low high vars := ⟨h.le, h.locals, valid, h.spread⟩

theorem Piece.Takes.seq {first second : Piece}
    (h : first.Takes low mid vars) (g : second.Takes mid high vars') :
    (Piece.seq first second).Takes low high (vars ++ vars') where
  le := Nat.le_trans h.le g.le
  locals i hi := (List.mem_append.1 hi).elim (h.locals i) (g.locals i)
  spread := h.spread.append g.spread h.le g.le

/-- A construct asks for some labels before its parts are written. -/
theorem Piece.Takes.construct {parts piece : Piece}
    (count : Nat) (h : parts.Takes (low + count) high vars)
    (labels : ∀ x, piece.labels.count x = (List.range' low count).count x + parts.labels.count x) :
    piece.Takes low high vars where
  le := Nat.le_trans (Nat.le_add_right _ _) h.le
  locals := h.locals
  spread := by
    refine ((Spread.range low count).append h.spread (Nat.le_add_right _ _) h.le).perm ?_
    simpa [List.perm_iff_count, List.count_append] using labels

theorem Piece.Added.seq {first second : Piece} {scopes : List JumpScope}
    (h : first.Added scopes low mid vars) (g : second.Added scopes mid high vars') :
    (Piece.seq first second).Added scopes low high (vars ++ vars') :=
  .of_takes (h.takes.seq g.takes) ⟨h.valid, g.valid⟩

theorem Writes.pure {a : α} :
    Writes v (Pure.pure a) fun _ r piece => r = a ∧ piece = .plain [] := by
  intro s r t site front d scopes low opens ends
  cases ends
  refine ⟨[], .plain [], low, ⟨rfl, rfl⟩, ?_, .nothing scopes low⟩
  simpa [Piece.emit, Draft.push] using opens

theorem Writes.bind {x : Codegen α} {f : α → Codegen β} {P : List JumpScope → α → Piece → Prop}
    {Q : α → List JumpScope → β → Piece → Prop} (hx : Writes v x P)
    (hf : ∀ a, Writes v (f a) (Q a)) : Writes v (x >>= f) fun scopes r piece =>
      ∃ a first second, P scopes a first ∧ Q a scopes r second ∧ piece = .seq first second := by
  intro s r t site front d scopes low opens ends
  obtain ⟨a, u, endsX, endsF⟩ := ends_bind ends
  obtain ⟨vars, first, mid, hP, opens1, added⟩ := hx s a u site front d scopes low opens endsX
  obtain ⟨vars', second, high, hQ, opens2, added'⟩ := hf a u r t site _ _ scopes mid opens1 endsF
  refine ⟨vars ++ vars', .seq first second, high, ⟨a, first, second, hP, hQ, rfl⟩, ?_,
    added.seq added'⟩
  simpa [Piece.emit] using opens2

theorem Writes.discard {x : Codegen α} {b : β} {Q : List JumpScope → Piece → Prop}
    (h : Writes v x fun scopes _ => Q scopes) :
    Writes v (x >>= fun _ => Pure.pure b) fun scopes _ => Q scopes := by
  intro s r t site front d scopes low opens ends
  obtain ⟨a, u, endsX, endsF⟩ := ends_bind ends
  cases endsF
  exact h s a _ site front d scopes low opens endsX

/-! ## Single steps -/

namespace State

section

variable (h : s.Opens site front d scopes low)

include h

theorem Opens.fresh {x : Ident} (ends : Ends (liftM Builder.fresh : Codegen Ident) s x t) :
    x = low ∧ t.Opens site front d scopes (low + 1) := by
  cases ends
  exact ⟨h.bound, h.at_.same rfl rfl, h.scopes, congrArg (· + 1) h.bound⟩

theorem Opens.isLive {live : Bool}
    (ends : Ends Codegen.isLive s live t) : live = d.live ∧ t.Opens site front d scopes low := by
  cases ends
  exact ⟨h.at_.reachable, h⟩

variable {operands : List Operand}

theorem Opens.emitVoid {op : Opcode}
    (ends : Ends (liftM (Builder.emitVoid op operands) : Codegen Unit) s u t) :
    t.Opens site front (d.push [{ op, operands }]) scopes low := by
  obtain ⟨b, inner, rfl⟩ := ends_lift Build ends
  obtain ⟨k, -, hk, rfl⟩ := Builder.ends_append inner
  exact ⟨h.at_.pushed hk _ _, h.scopes, h.bound⟩

theorem Opens.halt {k : Nat} (hk : s.builder.block = some k)
    (i : Instruction) {cursor : Cursor} (dead : cursor.deadBlocks = s.builder.deadBlocks) :
    State.Pauses { s with builder := (s.builder.pushed k i s.builder.output.bound).halted cursor }
      site front (d.close [i]) scopes low where
  between := by
    have pushed := h.at_.pushed hk i s.builder.output.bound
    exact ⟨pushed.version, pushed.inFunction, pushed.functions, rfl, dead.trans pushed.deadBlocks,
      pushed.variablesBlock, pushed.codeBlock⟩
  scopes := h.scopes
  bound := h.bound

theorem Opens.endBlock {i : Instruction}
    (ends : Ends (liftM (Builder.endBlock i) : Codegen Unit) s u t) :
    t.Pauses site front (d.close [i]) scopes low := by
  obtain ⟨b, inner, rfl⟩ := ends_lift Build ends
  obtain ⟨k, hk, rfl⟩ := Builder.ends_endBlock inner
  exact h.halt hk i rfl

theorem Opens.endWith {op : Opcode}
    (ends : Ends (liftM (Builder.endWith op operands) : Codegen Unit) s u t) :
    t.Pauses site front (d.close [{ op, operands }]) scopes low := by
  obtain ⟨b, inner, rfl⟩ := ends_lift Build ends
  obtain ⟨k, hk, rfl⟩ := Builder.ends_endWith inner
  exact h.halt hk _ rfl

theorem Opens.finishBlock {target : Ident}
    (ends : Ends (liftM (Builder.finishBlock target) : Codegen Unit) s u t) :
    t.Pauses site front (d.close (onward d.live target)) scopes low := by
  obtain ⟨b, inner, rfl⟩ := ends_lift Build ends
  replace inner := ends_get inner
  have reachable : (World.builder s).reachable = d.live := h.at_.reachable
  rw [reachable] at inner
  cases live : d.live with
  | true =>
    rw [live, if_pos rfl] at inner
    exact h.endBlock (Embeds.lift_ends (m := Build) inner)
  | false =>
    rw [live, if_neg Bool.false_ne_true] at inner
    exact h.endWith (Embeds.lift_ends (m := Build) inner)

end

section

variable (h : s.Pauses site front w scopes low)

include h

theorem Pauses.fresh {x : Ident} (ends : Ends (liftM Builder.fresh : Codegen Ident) s x t) :
    x = low ∧ t.Pauses site front w scopes (low + 1) := by
  cases ends
  obtain ⟨between, hscopes, hbound⟩ := h
  exact ⟨hbound, { between with }, hscopes, congrArg (· + 1) hbound⟩

theorem Pauses.opened (label : Ident) (live : Bool) : State.Opens { s with
      builder := s.builder.opened label (some s.builder.blockCount)
        (s.builder.toCursor.begin label live) } site front (w.begin label live) scopes low where
  at_ := by
    obtain ⟨between, -, -⟩ := h
    refine ⟨between.version, between.inFunction, ?_, ?_, Cursor.currentBlock_begin _ _ _,
      Cursor.reachable_begin _ _ _, ?_, between.variablesBlock, between.codeBlock⟩
    · simp [Builder.opened, between.functions, Site.functions, Function.withBlock, Draft.all,
        Written.begin]
    · simp [Builder.opened, Builder.blockCount, between.functions, Site.functions, Written.begin]
    · simp [Builder.opened, between.deadBlocks, Written.begin]
  scopes := h.scopes
  bound := h.bound

theorem Pauses.beginAt {label : Ident} {live : Bool}
    (ends : Ends (Codegen.beginAt label live) s u t) :
    t.Opens site front (w.begin label live) scopes low := by
  obtain rfl := Codegen.ends_beginAt h.between.current? ends
  exact h.opened label live

theorem Pauses.beginBlock {label : Ident}
    (ends : Ends (liftM (Builder.beginBlock label) : Codegen Unit) s u t) :
    t.Opens site front (w.begin label true) scopes low := by
  obtain ⟨b, inner, rfl⟩ := ends_lift Build ends
  obtain rfl := Builder.ends_beginBlock h.between.current? inner
  exact h.opened label true

theorem Pauses.beginDeadBlock (ends : Ends (liftM Builder.beginDeadBlock : Codegen Unit) s u t) :
    t.Opens site front (w.begin low false) scopes (low + 1) := by
  obtain ⟨b, inner, rfl⟩ := ends_lift Build ends
  obtain ⟨x, b1, hfresh, inner⟩ := ends_bind inner
  cases hfresh
  have paused : State.Pauses { s with builder := s.builder.handOut } site front w scopes
    (low + 1) :=
    (h.fresh rfl).2
  obtain ⟨_, b2, rfl, inner⟩ := ends_then (Builder.ends_beginBlock paused.between.current?) inner
  cases inner
  exact h.bound ▸ paused.opened s.builder.output.bound false

theorem Pauses.enter (scope : JumpScope) :
    State.Pauses { s with scopes := scope :: s.scopes } site front w (scope :: scopes) low :=
  ⟨h.between, by rw [h.scopes], h.bound⟩

end

theorem Pauses.leave {scope : JumpScope} (h : s.Pauses site front w (scope :: scopes) low) :
    State.Pauses { s with scopes := s.scopes.tail } site front w scopes low :=
  ⟨h.between, by rw [h.scopes]; rfl, h.bound⟩

end State

end Steps

/-! ## Statements -/

/-- A statement that may be absent. -/
def Part {α : Type} (Q : α → Piece → Prop) : Option α → Piece → Prop
  | none, piece => piece = .plain []
  | some a, piece => Q a piece

/-- Several pieces, one after the other. -/
def Piece.all : List Piece → Piece
  | [] => .plain []
  | piece :: rest => .seq piece (all rest)

theorem Writes.optionForM {f : α → Codegen PUnit} {o : Option α}
    {Q : List JumpScope → α → Piece → Prop} (h : ∀ a ∈ o, Writes v (f a) fun scopes _ =>
      Q scopes a) :
    Writes v (o.forM f) fun scopes _ => Part (Q scopes) o := by
  cases o with
  | none => exact Writes.pure.mono fun _ _ _ h => h.2
  | some a => exact h a rfl

theorem Writes.forM {f : α → Codegen PUnit} {list : List α} {Q : List JumpScope → α → Piece → Prop}
    (h : ∀ a ∈ list, Writes v (f a) fun scopes _ => Q scopes a) :
    Writes v (list.forM f) fun scopes _ piece =>
      ∃ pieces, List.Forall₂ (Q scopes) list pieces ∧ piece = .all pieces := by
  induction list with
  | nil => exact Writes.pure.mono fun _ _ _ h => ⟨[], .nil, h.2⟩
  | cons a rest ih =>
    refine (Writes.bind (h a List.mem_cons_self)
      fun _ => ih fun c hc => h c (List.mem_cons_of_mem a hc)).mono ?_
    rintro scopes _ piece ⟨_, first, second, hfirst, ⟨pieces, all, rfl⟩, rfl⟩
    exact ⟨first :: pieces, .cons hfirst all, rfl⟩

end ShaderGen
