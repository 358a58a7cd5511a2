import Mathlib.Data.List.Nodup
import ShaderGen.Proofs.Scope.Code

/-!
# Ids that are handed out before they are defined

Labels of blocks to come, functions and announced pointer types get their ids first. The ledger owes
such an id until its definition follows, so that no other instruction defines it.
-/

namespace ShaderGen

open List

variable {x : Ident} {r : Role} {y : Ident} {role : Role}

/-- The ledger when an id has been handed out. If it is a label, its block asks for `avail`. -/
def Ledger.owe (l : Ledger) (x : Ident) (role : Role) (avail : Ident → Prop) : Ledger :=
  { l with
    owed := (x, role) :: l.owed
    avail := fun t => if t = x then avail else l.avail t }

namespace Builder

variable {l : Ledger} {b : Builder}

/-- A builder that has handed out an id. -/
def handOut (b : Builder) : Builder :=
  { b with output.bound := b.output.bound + 1 }

theorem IsLabel.placed (h : b.IsLabel l x) : b.Placed l x := by
  rcases h with h | ⟨f, hf, hx⟩
  · exact .inl (mem_map_of_mem h)
  · obtain ⟨block, hblock, rfl⟩ := mem_map.1 hx
    refine .inr (mem_append_right _ (mem_flatMap.2
      ⟨f, mem_functions_of_current? hf, mem_append_right _ ?_⟩))
    exact mem_flatMap.2 ⟨block, hblock, mem_cons_self⟩

theorem Sound.leaves_of_known (sound : b.Sound l) {k : Nat} (hk : b.block = some k) :
    ∃ label, b.currentBlock = some label ∧ ∀ x, b.Known l x → b.Leaves l label x := by
  obtain ⟨-, f, block, current, hblock, -, same⟩ := sound.selected hk
  have isLabel : b.IsLabel l block.label := .inr ⟨f, current, Function.labels_getElem hblock⟩
  exact ⟨block.label, same, fun x known => ⟨sound.below _ isLabel.placed, f, block, current,
    mem_of_getElem? hblock, rfl, known.reaches current hk hblock⟩⟩

theorem Leaves.own (sound : b.Sound l) {f : Function} (hf : b.current? = some f) {label : Ident}
    (h : b.Leaves l label x) : b.Shared l x ∨ x ∈ f.ids := by
  obtain ⟨-, g, block, hg, hblock, -, reaches⟩ := h
  obtain rfl := Option.some.inj (hg.symm.trans hf)
  rcases reaches with shared | fixed | avail | result
  · exact .inl shared
  · exact .inr (g.fixedIds_subset_ids fixed)
  · exact sound.asks g hf label x avail
  · refine .inr (mem_append_right _ (mem_flatMap.2 ⟨block, hblock, ?_⟩))
    exact mem_cons_of_mem _ result

section Owe

variable {role : Role} {avail : Ident → Prop} {x y : Ident}

theorem Global.owe (h : b.Global l y) : b.handOut.Global (l.owe x role avail) y :=
  h.imp_right (mem_cons_of_mem _)

theorem Shared.owe (h : b.Shared l y) : b.handOut.Shared (l.owe x role avail) y := by
  rcases h with h | h | h | h
  · exact .inl h
  · exact .inr (.inl h)
  · exact .inr (.inr (.inl (mem_cons_of_mem _ h)))
  · exact .inr (.inr (.inr (h.imp_left (mem_cons_of_mem _))))

theorem Fixed.owe (h : b.Fixed l y) : b.handOut.Fixed (l.owe x role avail) y :=
  h.imp_left Shared.owe

theorem Placed.owe (h : b.Placed l y) : b.handOut.Placed (l.owe x role avail) y :=
  h.imp_left (mem_cons_of_mem _)

theorem IsLabel.owe (h : b.IsLabel l y) : b.handOut.IsLabel (l.owe x role avail) y :=
  h.imp_left (mem_cons_of_mem _)

theorem avail_owe (h : y ≠ x) : (l.owe x role avail).avail y = l.avail y :=
  if_neg h

theorem Scoped.ne_bound (sound : b.Scoped l) (h : b.Placed l y) : y ≠ b.output.bound :=
  fun same => sound.not_placed_bound (same ▸ h)

/-- An id is handed out. If it is a label, its block asks only for what the function has. -/
theorem Scoped.owe (sound : b.Scoped l) (role : Role) (avail : Ident → Prop)
    (own : ∀ f, b.current? = some f → ∀ x, avail x → b.Shared l x ∨ x ∈ f.ids) :
    b.handOut.Scoped (l.owe b.output.bound role avail) := by
  have code : b.SameCode b.handOut := ⟨rfl, rfl, rfl⟩
  refine code.keepsScoped sound (fun _ => Shared.owe) (fun _ => IsLabel.owe)
    (fun t ht => avail_owe (sound.ne_bound ht.placed)) (fun f hf t x hx => ?_)
    (sound.carry (fun _ => Shared.owe) (fun _ => Placed.owe) ⟨rfl, rfl, rfl, rfl⟩
      (fun x hx => Global.owe (sound.remembered x hx))
      fun x storage hx => mem_cons_of_mem _ (sound.announced x storage hx))
    (nodup_cons.2 ⟨fun h => sound.not_placed_bound (mem_append.1 h), sound.distinct⟩)
    fun x hx => ?_
  · dsimp only [Ledger.owe] at hx
    split at hx
    · exact (own f hf x hx).imp_left Shared.owe
    · exact (sound.asks f hf t x hx).imp_left Shared.owe
  · rcases hx with hx | hx
    · rcases mem_cons.1 hx with rfl | hx
      · exact Nat.lt_succ_self _
      · exact Nat.lt_succ_of_lt (sound.below x (.inl hx))
    · exact Nat.lt_succ_of_lt (sound.below x (.inr hx))

theorem Sound.owe (sound : b.Sound l) (notPointer : role ≠ .pointer) (avail : Ident → Prop)
    (own : ∀ f, b.current? = some f → ∀ x, avail x → b.Shared l x ∨ x ∈ f.ids) :
    b.handOut.Sound (l.owe b.output.bound role avail) := by
  refine ⟨sound.toScoped.owe role avail own, sound.order.mono rfl (fun _ => id) (fun x => ?_)
    fun _ _ => id⟩
  simp only [Ledger.owe, mem_cons, Prod.mk.injEq, or_iff_right_iff_imp]
  exact fun h => absurd h.2.symm notPointer

theorem Known.owe (sound : b.Sound l) (h : b.Known l y) :
    b.handOut.Known (l.owe b.output.bound role avail) y := by
  rcases h with h | ⟨here, hhere, hy⟩
  · exact .inl h.owe
  · refine .inr ⟨here, hhere, ?_⟩
    obtain ⟨f, hf, k, hk, hblock⟩ : ∃ f, b.current? = some f ∧ ∃ k, b.block = some k ∧
        f.blocks[k]? = some here := by
      simpa [here?, Option.bind_eq_some_iff] using hhere
    have label : b.IsLabel l here.label := .inr ⟨f, hf, Function.labels_getElem hblock⟩
    rwa [avail_owe (sound.ne_bound label.placed)]

theorem follows_owe (notFunction : role ≠ .function) :
    b.Follows l (l.owe b.output.bound role avail) b.handOut :=
  { Follows.refl l b with
    global := fun _ _ => Global.owe
    bound := Nat.le_succ _
    shared := fun _ _ => Shared.owe
    fixed := fun _ _ => Fixed.owe
    placed := fun _ _ => Placed.owe
    label := fun _ _ => IsLabel.owe
    avail := fun _ _ hx => avail_owe (Nat.ne_of_lt hx)
    leaves := fun _ _ _ ht =>
      ht.mono rfl (Nat.le_succ _) (fun _ => Shared.owe) (avail_owe (Nat.ne_of_lt ht.1))
    functions := fun _ x => by
      simp only [Ledger.owe, mem_cons, Prod.mk.injEq, or_iff_right_iff_imp]
      exact fun h => absurd h.2.symm notFunction }

theorem grows_owe (sound : l.strict → b.Sound l) (avail : Ident → Prop) :
    b.Grows l (l.owe b.output.bound .pointer avail) b.handOut where
  toFollows := follows_owe (by simp)
  known := fun hs _ => Known.owe (sound hs)
  owed := fun _ x => by simp [Ledger.owe]
  opened := rfl

end Owe

end Builder

/-! ## Paying back -/

/-- The ledger when an id that was handed out has been defined. -/
def Ledger.settle (l : Ledger) (x : Ident) (role : Role) : Ledger :=
  { l with owed := l.owed.erase (x, role) }

theorem Ledger.mem_settle_of_ne {l : Ledger} (h : r ≠ role) :
    (y, r) ∈ (l.settle x role).owed ↔ (y, r) ∈ l.owed :=
  mem_erase_of_ne fun same => h (congrArg Prod.snd same)

namespace Builder

variable {l : Ledger} {b : Builder} {x : Ident} {role : Role}

theorem Sound.owed_unique (sound : b.Sound l) (hx : (x, role) ∈ l.owed)
    (hr : (x, r) ∈ l.owed) : r = role := by
  have distinct : (l.owed.map Prod.fst).Nodup := (nodup_append.1 sound.distinct).1
  have same := inj_on_of_nodup_map distinct hr hx rfl
  exact congrArg Prod.snd same

theorem Sound.mem_settle (sound : b.Sound l) (hx : (x, role) ∈ l.owed) :
    (y, r) ∈ (l.settle x role).owed ↔ (y, r) ∈ l.owed ∧ y ≠ x := by
  have distinct : l.owed.Nodup := ((nodup_append.1 sound.distinct).1).of_map
  rw [Ledger.settle, distinct.mem_erase_iff, and_comm]
  refine and_congr_right fun hy =>
    ⟨fun ne same => ne ?_, fun ne same => ne (congrArg Prod.fst same)⟩
  subst same
  rw [sound.owed_unique hx hy]

theorem perm_settle_append (hx : (x, role) ∈ l.owed) {ids ids' : List Ident}
    (h : ids'.Perm (x :: ids)) : ((l.settle x role).owed.map Prod.fst ++ ids').Perm
      (l.owed.map Prod.fst ++ ids) := by
  refine ((perm_append_left_iff _).2 h).trans (perm_middle.trans ?_)
  exact (((perm_cons_erase hx).map Prod.fst).append_right ids).symm

end Builder

end ShaderGen
