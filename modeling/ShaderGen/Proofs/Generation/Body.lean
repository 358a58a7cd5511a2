import ShaderGen.Proofs.Scope.EntryPoint

/-!
# Bodies of functions

What is done for a function apart from its statements calls nothing. The statements call what
`Codegen.body_calls` says: the initializers first, where the function is the one to run them.
-/

namespace ShaderGen.Codegen

variable {p : Program}

theorem closeBody_callFree (definition : FunctionDecl) (type : Ident) :
    Acting .inside .between (Quiet p) (closeBody definition type) := by
  have last : ∀ {op : Opcode}, op ≠ .functionCall → ∀ operands,
      Acting .inside .between (Quiet p) (liftM (Builder.endWith op operands) : Codegen Unit) :=
    fun noCall operands => build_callFree (Builder.endWith_acts noCall operands)
  refine .bind isLive_does.acts fun live => ?_
  split
  · exact last (by decide) _
  split
  · exact last (by decide) _
  · exact .bind (Builder.constNull_does _).up.acts fun _ =>
      last (by decide) _

theorem statements_calls (nodes : List Node) :
    Calls p (callOrders nodes) (AllComplete p nodes) (nodes.forM (statement p)) := by
  rw [callOrders_eq]
  refine .forM fun n mem => CallsFrom.mono (statement_does fun _ hx => hx).acts fun complete => ?_
  exact complete.of_mem mem

theorem runInitializers_calls (f : FunctionId) :
    Calls p (callOrders (p.prelude f)) (AllComplete p (p.prelude f)) (runInitializers p f) := by
  unfold runInitializers Program.prelude
  split
  · exact statements_calls _
  · exact .quiet .pure

theorem body_calls (f : FunctionId) (definition : FunctionDecl) :
    Calls p (callOrders (p.prelude f ++ definition.body))
      (AllComplete p (p.prelude f ++ definition.body)) (do
        runInitializers p f
        modify fun s => { s with returnType := some definition.returnType }
        definition.body.forM (statement p)
        modify fun s => { s with returnType := none } : Codegen Unit) := by
  have orders : callOrders (p.prelude f ++ definition.body) =
      callOrders (p.prelude f) ++ callOrders definition.body := by simp [callOrders_eq]
  have remember : ∀ type : Option ShaderType, CallFree p
      (modify fun s => { s with returnType := type } : Codegen PUnit) :=
    fun type => .remember (fun s => .step (.refl s) (.remember _ _ _)) fun _ _ => rfl
  rw [orders]
  refine ((runInitializers_calls f).mono fun complete => (AllComplete.of_append complete).1).bind
    fun _ => .after (remember _) fun _ => ?_
  exact ((statements_calls _).mono fun complete => (AllComplete.of_append complete).2).before
    fun _ => remember _

end ShaderGen.Codegen
