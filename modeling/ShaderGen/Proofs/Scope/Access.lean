import ShaderGen.Proofs.Generation.Does

/-!
# Access through paths

A path holds ids that have been computed before it is used. Whatever happens between the forming of
a path and the access through it, these ids are known at the access if they are known at its place.

A load only computes, unless it is from a value that is indexed at run time
(`AccessPath.ends_load`).
-/

namespace ShaderGen

open Builder
open Steps (Ends ends_bind)

/-! ## Changes of representation -/

variable {E : Effect Builder} [Computes E]

namespace Builder

theorem truthOfInt_does (value source target : Ident) :
    Does E [.value value, .shared source, .shared target] (truthOfInt value source target)
      ([.value ·]) :=
  .bind (constFilled_does source 0).lift fun _ => (compute_does .iNotEqual target _ rfl).last

theorem intOfTruth_does (value target : Ident) :
    Does E [.value value, .shared target] (intOfTruth value target) ([.value ·]) :=
  .bind (constFilled_does target 1).lift fun _ =>
    .bind (constFilled_does target 0).lift fun _ => (compute_does .select target _ rfl).last

theorem canCopyLogically_stripped (b : Builder) (s t : Ident) :
    b.stripped.canCopyLogically s t = b.canCopyLogically s t := by
  have within : b.stripped.disagreeOnTruthWithin = b.disagreeOnTruthWithin := by
    delta disagreeOnTruthWithin
    rfl
  rw [canCopyLogically, disagreeOnTruth, within]
  rfl

theorem recastWithin_does (depth : Nat) (value source target : Ident) :
    Does E [.value value, .shared source, .shared target] (recastWithin depth value source target)
      ([.value ·]) := by
  induction depth generalizing value source target with
  | zero => exact .failBuild rfl
  | succ depth ih =>
    unfold recastWithin
    split
    · exact .pure
    refine .lookBuild (fun b => by simp only [canCopyLogically_stripped]; rfl) fun b => ?_
    split
    · exact (truthOfInt_does value source target).last
    · exact (intOfTruth_does value target).last
    · split
      · exact (truthOfInt_does value source target).last
      · split
        · exact (intOfTruth_does value target).last
        · exact .failBuild rfl
    · split
      · exact .failBuild rfl
      · split
        · exact (compute_does .copyLogical target _ rfl).last
        · refine .partTypes fun sourceParts hsource => .partTypes fun targetParts htarget => ?_
          split
          · exact .failBuild rfl
          refine .next (.mapM ([.value ·]) fun ((s, t), i) hparts => ?_) fun parts =>
            (compute_does .compositeConstruct target (Operand.refs parts) rfl).last
            (p := by simp +contextual)
          obtain ⟨hs, ht⟩ := List.of_mem_zip (List.fst_mem_of_mem_zipIdx hparts)
          refine .learn (.shared s) (gives_partTypes hsource hs) ?_
          refine .learn (.shared t) (gives_partTypes htarget ht) ?_
          refine .bind (compute_does .compositeExtract s _ rfl) fun part => ?_
          exact (ih part s t).last
    · exact .failBuild rfl

theorem recast_does (value source target : Ident) :
    Does E [.value value, .shared source, .shared target] (recast value source target)
      ([.value ·]) :=
  .lookBuild (fun _ => rfl) fun _ => (recastWithin_does _ value source target).last

end Builder

/-! ## Paths -/

namespace AccessPath

open Builder (Building)

variable {path q : AccessPath} {more : List Ident} {b b' : Builder}

attribute [simp] withoutSwizzle

/-- The path leads on by more indices, in the same object or value. -/
structure Extends (q path : AccessPath) (more : List Ident) : Prop where
  base : q.base = path.base
  isValue : q.isValue = path.isValue
  indices : q.indices = path.indices ++ more

theorem Extends.same (base : q.base = path.base) (isValue : q.isValue = path.isValue)
    (indices : q.indices = path.indices) : q.Extends path [] :=
  ⟨base, isValue, by rw [indices, List.append_nil]⟩

theorem selectComponents_does (path : AccessPath) (components : List Nat) (vectorType : Ident) :
    Does E [.path path] (path.selectComponents components vectorType) ([.path ·]) := by
  unfold selectComponents
  split
  · exact .failBuild rfl
  · split
    · exact .pure (h := by simp)
    · refine .next (.mapM (fun _ => []) fun c _ => ?_) fun composed => .pure (h := by simp)
      split
      · exact .pure
      · exact .failBuild rfl

theorem selectIndex_does (path : AccessPath) (index : Ident) :
    Does E (.value index :: [.path path]) (path.selectIndex index) ([.path ·]) := by
  refine .lookBuild (fun _ => rfl) fun b => ?_
  dsimp only
  split
  · split
    · exact (selectComponents_does path _ path.type).last
    · exact .pure (h := by simp)
    · exact .failBuild rfl
  · split
    · rename_i type found
      refine .learn (.shared type) (gives_contained found) (.pure (h := by simp))
    · exact .failBuild rfl

theorem selectMember_does (path : AccessPath) (member : Nat) :
    Does E [.path path] (path.selectMember member) ([.path ·]) :=
  .bind (constSigned_does member).lift fun index => (selectIndex_does path index).last

theorem ends_selectComponents {components : List Nat} {vectorType : Ident}
    (ends : Ends (path.selectComponents components vectorType) b q b') : q.Extends path [] ∧
    b = b' := by
  unfold selectComponents at ends
  split at ends
  · cases ends
  · split at ends
    · cases ends
      exact ⟨.same rfl rfl rfl, rfl⟩
    · obtain ⟨_, _, composes, ends⟩ := ends_bind ends
      cases ends
      refine ⟨.same rfl rfl rfl, Relates.mapM (fun c _ => ?_) _ _ _ composes⟩
      split
      · exact .pure
      · exact fun _ _ _ ends => by cases ends

theorem ends_selectIndex {index : Ident} (ends : Ends (path.selectIndex index) b q b') :
    (∃ more ⊆ [index], q.Extends path more) ∧ b = b' := by
  replace ends := ends_get ends
  dsimp only at ends
  split at ends
  · split at ends
    · exact (ends_selectComponents ends).imp_left fun same => ⟨[], by simp, same⟩
    · cases ends
      exact ⟨⟨[], by simp, .same rfl rfl rfl⟩, rfl⟩
    · cases ends
  · split at ends
    · cases ends
      exact ⟨⟨[index], by simp, rfl, rfl, rfl⟩, rfl⟩
    · cases ends

theorem resolveComponent_does (path : AccessPath) :
    Does E [.path path] path.resolveComponent ([.path ·]) := by
  unfold resolveComponent
  split
  · exact .pure
  · rename_i component hcomponent
    refine .learn (.value component) (gives_component hcomponent) ?_
    split
    · refine .bind typeWord_does.lift fun word => ?_
      refine .bind (typeVector_does word _).lift fun tableType => ?_
      refine .next (.mapM ([.shared ·]) fun s _ =>
        (constWord_does s).lift.last) fun entries => ?_
      refine .bind (constComposite_does tableType entries).lift (h := by simp +contextual)
        fun table => ?_
      exact .bind (compute_does .vectorExtractDynamic word _ rfl) fun id => .pure (h := by simp)
    · exact .pure (h := by simp)

theorem ends_resolveComponent (ends : Ends path.resolveComponent b q b') : q.Extends path [] := by
  unfold resolveComponent at ends
  split at ends
  · cases ends
    exact .same rfl rfl rfl
  · split at ends
    · obtain ⟨_, _, -, _, _, -, ends⟩ := ends_bind₂ ends
      obtain ⟨_, _, -, _, _, -, ends⟩ := ends_bind₂ ends
      obtain ⟨_, _, -, ends⟩ := ends_bind ends
      cases ends
      exact .same rfl rfl rfl
    · cases ends
      exact .same rfl rfl rfl

theorem exists_swizzle (path : AccessPath) (c : Prop) [Decidable c] : ∃ swizzle vector,
    (if c then path.withoutSwizzle else path) = { path with swizzle, preSwizzleType :=
      vector } := by
  split
  · exact ⟨_, _, rfl⟩
  · exact ⟨_, _, rfl⟩

theorem simplify_does (path : AccessPath) : Does E [.path path] path.simplify ([.path ·]) := by
  refine .lookEmit (fun _ => rfl) fun b => ?_
  obtain ⟨swizzle, vector, same⟩ :=
    path.exists_swizzle (path.swizzle = List.range (b.componentCount path.type))
  dsimp only
  rw [same]
  split
  · exact .bind (constWord_does _) fun index => .pure (h := by simp)
  · exact .pure (h := by simp)

theorem ends_simplify (ends : Ends path.simplify b q b') :
    ∃ more, q.Extends path more ∧ (path.isValue → more = []) := by
  obtain ⟨swizzle, vector, same⟩ :=
    path.exists_swizzle (path.swizzle = List.range (b.componentCount path.type))
  replace ends := ends_get ends
  dsimp only at ends
  rw [same] at ends
  split at ends
  · rename_i memory _ _
    obtain ⟨index, _, -, ends⟩ := ends_bind ends
    cases ends
    exact ⟨[index], ⟨rfl, rfl, rfl⟩, fun value => by cases memory.symm.trans value⟩
  · cases ends
    exact ⟨[], .same rfl rfl rfl, fun _ => rfl⟩

section

variable (path)

theorem markNonUniform_does (id : Ident) :
    Does E [.value id] (path.markNonUniform id) fun _ => [] := by
  unfold markNonUniform
  split
  · exact .bind (require_does (by decide)) fun _ => (Builder.markNonUniform_does id).last
  · exact .pure

theorem address_does : Does E [.path path] path.address ([.value ·]) := by
  unfold address
  split
  · exact .failBuild rfl
  · split
    · exact .pure
    · refine .bind (typePointer_does _ path.type).lift fun type => ?_
      refine .bind (compute_does .accessChain type _ rfl) (fun id => ?_)
      exact .bind (markNonUniform_does path id).lift fun _ => .pure

theorem pointer_does : Does E [.path path] path.pointer ([.value ·]) := by
  refine .bind (simplify_does path).lift fun simple => ?_
  split
  · exact (address_does simple).last
  · exact .failBuild rfl

/-! ## Loads and stores -/

theorem memoryOperands_does (isStore : Bool) :
    Does E [] (path.memoryOperands isStore) fun operands => (Operand.ids operands).map .shared := by
  refine .lookEmit (fun _ => rfl) fun b =>
    .bind (require_does (path.coherency.accessNeeds_general _)) fun _ => ?_
  dsimp only
  split
  · exact .pure
  · split
    · refine .bind (require_does (path.coherency.scopeNeeds_general _)) fun _ =>
        .bind (constWord_does _) fun scope => ?_
      exact .pure (h := by split <;> simp)
    · exact .pure (h := by split <;> simp)

theorem loadIndexed_does : Does E [.path path] path.loadIndexed ([.value ·]) := by
  refine .bind (address_does path) fun pointer => ?_
  refine .bind (memoryOperands_does path false).lift fun operands => ?_
  refine .bind (compute_does .load path.type _ rfl) (h := by simp +contextual) (fun id => ?_)
  exact .bind (markNonUniform_does path id).lift fun _ => .pure

theorem fetch_does : Does Building [.path path] path.fetch ([.value ·]) := by
  unfold fetch
  split
  · exact loadIndexed_does path
  · split
    · exact .pure
    · refine .lookBuild (fun _ => rfl) fun b => ?_
      split
      · exact (emit_does .compositeExtract path.type _ rfl).last (p := by simp)
      · refine .bind (localVariable_does _ path.baseType) fun holder => ?_
        refine .bind (emitVoid_does .store _ rfl) fun _ => ?_
        exact (loadIndexed_does _).last (p := by simp)

theorem pickComponents_does (value : Ident) :
    Does E [.value value, .shared path.type] (path.pickComponents value)
      fun (picked, type) => [.value picked, .shared type] := by
  refine .lookBuild (fun _ => rfl) fun b => ?_
  split
  · exact .pure
  · exact .bind (compute_does .compositeExtract _ _ rfl) fun _ => .pure
  · refine .bind (typeVector_does _ _).lift fun type => ?_
    exact .bind (h := by simp) (compute_does .vectorShuffle type _ rfl) fun _ => .pure

/-- What comes after the fetching of a load. -/
theorem fetched_does (whole wanted : Ident) : Does E [.value whole, .shared wanted, .path path] (do
      let (picked, pickedType) ← path.pickComponents whole
      let (value, type) ← match path.component with
        | none => pure (picked, pickedType)
        | some component => do
          let scalar := (← get).scalarOf pickedType
          let value ← emit .vectorExtractDynamic scalar [.ref picked, .ref component]
          pure (value, scalar)
      if type = wanted then return value
      else recast value type wanted : Build Ident) ([.value ·]) := by
  refine .bind (pickComponents_does path whole) fun (picked, pickedType) => ?_
  have finish : ∀ value type, Does E [.value value, .shared type, .shared wanted]
      (if type = wanted then pure value else recast value type wanted)
      ([.value ·]) := by
    intro value type
    split
    · exact .pure
    · exact recast_does value type wanted
  simp only [pure_bind]
  split
  · exact (finish picked pickedType).last
  · rename_i component hcomponent
    refine .lookBuild (fun _ => rfl) fun b => ?_
    refine .learn (.value component) (gives_component hcomponent) ?_
    exact .bind (compute_does .vectorExtractDynamic _ _ rfl) fun value => (finish value _).last

theorem load_does (wanted : Ident) :
    Does Building (.shared wanted :: [.path path]) (path.load wanted) ([.value ·]) := by
  refine .bind (resolveComponent_does path) fun resolved => ?_
  refine .bind (simplify_does resolved).lift fun simple => ?_
  exact .bind (fetch_does simple) fun whole => (fetched_does simple whole wanted).last

end

/-- A load only computes, unless it is from a value that is indexed at run time. -/
theorem ends_load {wanted id : Ident} (ends : Ends (path.load wanted) b id b')
    (known : path.isValue → ∀ b1, b.Computed b1 → (path.literals? b1).isSome) : b.Computed b' := by
  obtain ⟨resolved, b1, resolves, simple, b2, simplifies, ends⟩ := ends_bind₂ ends
  obtain ⟨whole, b3, fetches, ends⟩ := ends_bind ends
  have first : b.Computed b1 :=
    (resolveComponent_does (E := Calculating) path).acts.leads b _ b1 resolves
  have second : b1.Computed b2 :=
    (simplify_does (E := Calculating) resolved).lift.acts.leads b1 _ b2 simplifies
  have last : b3.Computed b' :=
    (fetched_does (E := Calculating) simple whole wanted).acts.leads b3 _ b' ends
  refine (first.trans second).trans (.trans ?_ last)
  obtain ⟨b2, simplifies, rfl⟩ := ends_lift Emit simplifies
  have extends1 := ends_resolveComponent resolves
  obtain ⟨more, extends2, kept⟩ := ends_simplify simplifies
  unfold fetch at fetches
  split at fetches
  · exact (loadIndexed_does (E := Calculating) simple).acts.leads _ _ _ fetches
  · split at fetches
    · cases fetches
      exact .refl
    · rename_i value _
      have isValue : path.isValue = true := by
        rw [← extends1.isValue, ← extends2.isValue]
        simpa using value
      have indices : simple.indices = path.indices := by
        rw [extends2.indices, kept (extends1.isValue.trans isValue), extends1.indices]
        simp
      have literals : (simple.literals? b2).isSome := by
        rw [literals?, indices]
        exact known isValue b2 (first.trans second)
      replace fetches := ends_get fetches
      split at fetches
      · exact (compute_does (E := Calculating) .compositeExtract _ _ rfl).acts.leads _ _ _ fetches
      · rename_i missing
        have missing : simple.literals? b2 = none := missing
        simp [missing] at literals

theorem storeIndexed_does (path : AccessPath) (value : Ident) :
    Does Building (.value value :: [.path path]) (path.storeIndexed value) fun _ => [] := by
  refine .bind (address_does path) fun pointer => ?_
  refine .bind (memoryOperands_does path true).lift fun operands => ?_
  exact (emitVoid_does .store _ rfl).last (p := by simp +contextual)

theorem gives_indexComponent {before : List Fact} (path : AccessPath) (b : Builder)
    [g : Gives before (.path path)] [Gives before (.tables b)] :
    Gives before (.path (path.indexComponent b)) := by
  have scalar : Gives before (.shared (b.scalarOf path.type)) := inferInstance
  unfold indexComponent
  split
  · rename_i component hcomponent
    exact gives_path (.inr (by simp [scalar, gives_component hcomponent]))
  · exact g

theorem storeWith_does {byParts : AccessPath → Ident → Ident → Build Unit}
    (h : ∀ path value type, Does Building (.value value :: .shared type :: [.path path])
      (byParts path value type) fun _ => []) (path : AccessPath) (value type : Ident) :
    Does Building (.value value :: .shared type :: [.path path]) (storeWith byParts path value type)
      fun _ => [] := by
  refine .bind (resolveComponent_does path) fun resolved => ?_
  refine .bind (simplify_does resolved).lift fun simple => ?_
  refine .lookBuild (fun _ => rfl) fun b => ?_
  refine .learn (.path (simple.indexComponent b)) (gives_indexComponent simple b) ?_
  generalize simple.indexComponent b = q
  dsimp only
  split
  · refine .lookBuild (fun _ => rfl) fun c => ?_
    refine .bind (typeVector_does _ _).lift fun partialType => ?_
    have finish : ∀ replacement, Does Building (.value replacement :: [.path q]) (do
        let whole ← q.loadIndexed
        let components := replacing q.swizzle ((← get).componentCount q.type)
        let merged ← emit .vectorShuffle q.type
          (.ref whole :: .ref replacement :: components.map .literal)
        q.storeIndexed merged) fun _ => [] := by
      intro replacement
      refine .bind (loadIndexed_does q) fun whole => .lookBuild (fun _ => rfl) fun d => ?_
      refine .bind (h := by simp) (compute_does .vectorShuffle q.type _ rfl) fun merged => ?_
      exact (storeIndexed_does q merged).last
    split
    · exact (finish value).last
    · exact .bind (recast_does value type partialType) fun r => (finish r).last
  · split
    · exact (storeIndexed_does q value).last
    · refine .lookBuild (fun _ => rfl) fun c => ?_
      split
      · exact (h q value type).last
      · refine .bind (recast_does value type q.type) fun recast => ?_
        exact (storeIndexed_does q recast).last

theorem storeByPartsWithin_does (depth : Nat) (path : AccessPath) (value type : Ident) :
    Does Building (.value value :: .shared type :: [.path path])
    (storeByPartsWithin depth path value type)
      fun _ => [] := by
  induction depth generalizing path value type with
  | zero => exact .failBuild rfl
  | succ depth ih =>
    have store := storeWith_does ih
    unfold storeByPartsWithin
    dsimp only
    split
    · exact store path value type
    · refine .lookBuild (fun b => by rw [canCopyLogically_stripped]) fun b => ?_
      split
      · refine .bind (compute_does .copyLogical path.type _ rfl) fun copied => ?_
        exact (store path copied path.type).last
      · refine .lookBuild (fun _ => rfl) fun c => .partTypes fun parts hparts => ?_
        refine .forM fun (part, i) hpart => ?_
        have member : part ∈ parts := List.fst_mem_of_mem_zipIdx hpart
        refine .learn (.shared part) (gives_partTypes hparts member) ?_
        refine .bind (compute_does .compositeExtract part _ rfl) fun element => ?_
        refine .bind (selectMember_does path i) fun member => ?_
        exact (store member element part).last

theorem storeByParts_does (path : AccessPath) (value type : Ident) :
    Does Building (.value value :: .shared type :: [.path path]) (storeByParts path value type)
      fun _ => [] :=
  .lookBuild (fun _ => rfl) fun _ => (storeByPartsWithin_does _ path value type).last

theorem store_does (path : AccessPath) (value type : Ident) :
    Does Building (.value value :: .shared type :: [.path path]) (store path value type) fun _ =>
    [] :=
  storeWith_does storeByParts_does path value type

end AccessPath

end ShaderGen
