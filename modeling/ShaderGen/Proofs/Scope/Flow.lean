import ShaderGen.Proofs.Scope.Expression
import ShaderGen.Proofs.Control.Writes

/-!
# Constructs that begin and end blocks

A construct asks for labels, ends the block it starts in, and goes through blocks of its own until
it comes to one that goes on after it. Each of its blocks asks for what was known where the
construct started. So whatever was known there is known again at the start of each of them, and in
the end.

`Goes base x y effect g c h` says that the step `c` of a construct that started with the facts
`base` leads from the stage `g` to the stage `h`, with no other effect than `effect`. A construct as
a whole keeps the ledger if it ends at a stage without labels that have no block (`Does.of_goes`).
-/

namespace ShaderGen

open Builder List Instruction
open Steps (Ends ends_bind ends_then)

variable {t : Ident} {i : Instruction} {l' : Ledger} {pending' : List Ident}

/-! ## Stages of a construct -/

/-- Where a construct starts: in a block, with facts that hold there. -/
structure Origin where
  ledger : Ledger
  state : State
  facts : List Fact
  sound : World.Sound ledger state
  hold : Fact.AllHold ledger state.builder facts
  isOpen : state.builder.block.isSome
  inside : state.builder.current?.isSome
  awake : ledger.straight → ledger.strict

/-- What is known where a construct starts. -/
def Origin.Knows (o : Origin) (x : Ident) : Prop := o.state.builder.Known o.ledger x

theorem Origin.blockCount_pos (o : Origin) (hs : o.ledger.strict) :
    0 < o.state.builder.blockCount := by
  obtain ⟨k, hk⟩ := Option.isSome_iff_exists.1 o.isOpen
  obtain ⟨-, f, block, current, hblock, -, -⟩ := (o.sound hs).builder.selected hk
  obtain ⟨-, fs, hfs⟩ := exists_functions current
  have count : o.state.builder.blockCount = f.blocks.length := by simp [blockCount, hfs]
  rw [count]
  exact Nat.lt_of_le_of_lt (Nat.zero_le k) (List.getElem?_eq_some_iff.1 hblock).1

/-- How far a construct has come. -/
structure Headway where
  /-- The labels that the construct has asked for. -/
  labels : List Ident
  /-- Those of them that have no block yet. -/
  pending : List Ident
  /-- Whether a block takes instructions. -/
  isOpen : Bool
  /-- The constructs that jumps can leave, as far as they are parts of this one. -/
  scopes : List JumpScope
  facts : List Fact

/-- A construct that started at `o` has come to the stage `g`. -/
structure Origin.Reaches (o : Origin) (g : Headway) (l : Ledger) (s : State) : Prop where
  sound : World.Sound l s
  follows : o.state.builder.Follows o.ledger l s.builder
  labels : o.ledger.strict → ∀ t, t ∈ g.labels ∨ t ∈ g.pending → s.builder.IsLabel l t ∧
    t < s.builder.output.bound ∧ ∀ x, l.avail t x ↔ o.Knows x
  distinct : o.ledger.strict → g.pending.Nodup ∧
    ∀ t ∈ g.pending, o.state.builder.output.bound ≤ t
  owed : o.ledger.strict → ∀ x, (x, Role.label) ∈ l.owed ↔ (x, .label) ∈ o.ledger.owed ∨
  x ∈ g.pending
  opened : s.builder.block.isSome = g.isOpen
  known : g.isOpen → o.ledger.strict → ∀ x, o.Knows x → s.builder.Known l x
  scopes : s.scopes = g.scopes ++ o.state.scopes
  inner : ∀ scope ∈ g.scopes, ∀ t ∈ scope.labels, t ∈ g.labels
  returnType : s.returnType = o.state.returnType
  signatures : s.signatures = o.state.signatures
  hold : Fact.AllHold l s.builder g.facts

/-- A step of a construct that started with the facts `base` leads from one stage to another one,
and it acts as the effect allows. -/
structure Goes {α : Type} (base : List Fact) (x y : Stance) (effect : Effect State) (g : Headway)
    (c : Codegen α) (h : α → Headway) : Prop where
  goes : ∀ o : Origin, o.facts = base → ∀ l s a t, o.Reaches g l s → Ends c s a t →
    ∃ l', o.Reaches (h a) l' t
  acts : Acting x y effect c

variable {o : Origin} {α β : Type} {labels : List Ident}

namespace Origin.Reaches

variable {g : Headway} {l : Ledger} {s : State} {b : Builder} {kept : List Fact}
  {scopes : List JumpScope} {k : Nat}

variable (h : o.Reaches g l s)

include h

theorem strict_iff : l.strict ↔ o.ledger.strict := by
  rw [h.follows.strict]

/-- The jumps out of the constructs around lead to blocks that ask for what is known, when a block
of the construct takes instructions. -/
theorem jumpsOf (hs : o.ledger.strict)
    (follows : s.builder.Follows l l' b) (known : ∀ x, o.Knows x → b.Known l' x)
    (inner : ∀ scope ∈ scopes, ∀ t ∈ scope.labels, t ∈ g.labels) :
    ∀ scope ∈ scopes ++ o.state.scopes, ∀ t ∈ scope.labels,
      b.IsLabel l' t ∧ t < b.output.bound ∧ ∀ x, l'.avail t x → b.Known l' x := by
  have hs' : l.strict := h.strict_iff.2 hs
  intro scope hscope t ht
  rcases mem_append.1 hscope with hscope | hscope
  · obtain ⟨label, below, avail⟩ := h.labels hs t (.inl (inner scope hscope t ht))
    refine ⟨follows.label hs' t label, Nat.lt_of_lt_of_le below follows.bound, fun x hx => ?_⟩
    rw [follows.avail hs' t below] at hx
    exact known x ((avail x).1 hx)
  · obtain ⟨label, below, avail⟩ := (o.sound hs).scopes o.isOpen scope hscope t ht
    have both := h.follows.trans follows
    refine ⟨both.label hs t label, Nat.lt_of_lt_of_le below both.bound, fun x hx => ?_⟩
    rw [both.avail hs t below] at hx
    exact known x (avail x hx)

theorem jumps (hs : o.ledger.strict)
    (follows : s.builder.Follows l l' b) (known : ∀ x, o.Knows x → b.Known l' x) :
    ∀ scope ∈ s.scopes, ∀ t ∈ scope.labels,
      b.IsLabel l' t ∧ t < b.output.bound ∧ ∀ x, l'.avail t x → b.Known l' x := by
  rw [h.scopes]
  exact h.jumpsOf hs follows known h.inner

theorem facts {facts : List Fact} (hold : Fact.AllHold l s.builder facts) :
    o.Reaches { g with facts } l s :=
  { h with hold }

theorem grow {t : State} {facts : List Fact} (sound : World.Sound l' t)
    (grows : s.builder.Grows l l' t.builder) (same : s.Same t)
    (hold : Fact.AllHold l' t.builder facts) :
    o.Reaches { g with facts := facts ++ g.facts } l' t where
  sound := sound
  follows := h.follows.trans grows.toFollows
  labels hs t ht := by
    have hs' : l.strict := h.strict_iff.2 hs
    obtain ⟨label, below, avail⟩ := h.labels hs t ht
    refine ⟨grows.label hs' t label, Nat.lt_of_lt_of_le below grows.bound, fun x => ?_⟩
    rw [grows.avail hs' t below]
    exact avail x
  distinct := h.distinct
  owed hs x := (grows.owed (h.strict_iff.2 hs) x).trans (h.owed hs x)
  opened := grows.opened.trans h.opened
  known isOpen hs x hx := grows.known (h.strict_iff.2 hs) x (h.known isOpen hs x hx)
  scopes := same.scopes.trans h.scopes
  inner := h.inner
  returnType := same.returnType.trans h.returnType
  signatures := same.signatures.trans h.signatures
  hold φ hφ := by
    rcases mem_append.1 hφ with hφ | hφ
    · exact hold φ hφ
    · exact (h.hold φ hφ).mono grows

theorem push {bound : Ident} (hk : s.builder.block = some k)
    (result : i.result = none ∧ bound = s.builder.output.bound ∨
      i.result = some s.builder.output.bound ∧ bound = s.builder.output.bound + 1)
    (values : l.strict → ∀ x ∈ i.valueIds, s.builder.Known l x)
    (labels : l.strict → ∀ t ∈ i.labelIds, s.builder.IsLabel l t)
    (targets : l.strict → ∀ t ∈ i.targets, ∀ x, l.avail t x → s.builder.Known l x)
    (joins : l.strict → ∀ q ∈ i.incoming, s.builder.Leaves l q.2 q.1) :
    o.Reaches g l { s with builder := s.builder.pushed k i bound } := by
  have le : s.builder.output.bound ≤ bound := by
    rcases result with ⟨-, rfl⟩ | ⟨-, rfl⟩
    · exact Nat.le_refl _
    · exact Nat.le_succ _
  have follows : s.builder.Follows l l (s.builder.pushed k i bound) := follows_pushed le
  have isOpen : g.isOpen = true := by rw [← h.opened, hk, Option.isSome_some]
  have known : o.ledger.strict → ∀ x, o.Knows x → (s.builder.pushed k i bound).Known l x :=
    fun hs x hx => known_pushed_of_known (h.known isOpen hs x hx)
  refine ⟨fun hs => ?_, h.follows.trans follows, fun hs t ht => ?_, h.distinct, h.owed, h.opened,
    fun _ => known, h.scopes, h.inner, h.returnType, h.signatures, fun φ hφ => ?_⟩
  · exact (h.sound hs).move hs ((h.sound hs).builder.pushed_control hs hk result (values hs)
      (labels hs) (targets hs) (joins hs)) follows (.refl l)
      fun _ => h.jumps (h.strict_iff.1 hs) follows (known (h.strict_iff.1 hs))
  · obtain ⟨label, below, avail⟩ := h.labels hs t ht
    exact ⟨isLabel_pushed.2 label, Nat.lt_of_lt_of_le below le, avail⟩
  · exact (h.hold φ hφ).mono_of follows (fun _ _ => known_pushed_of_known) fun h => h

/-- A control instruction without a result is appended. It names labels of the construct, or of the
constructs around. -/
theorem pushVoid (hk : s.builder.block = some k)
    (result : i.result = none) (values : Entails g.facts (i.valueIds.map .value))
    (names : ∀ t ∈ i.labelIds, t ∈ g.labels ∨ .target t ∈ g.facts) (joins : i.incoming = []) :
    o.Reaches g l
      { s with builder := s.builder.pushed k i s.builder.output.bound } := by
  have isOpen : g.isOpen = true := by rw [← h.opened, hk, Option.isSome_some]
  have target : l.strict → ∀ t ∈ i.labelIds,
      s.builder.IsLabel l t ∧ ∀ x, l.avail t x → s.builder.Known l x := by
    intro hs t ht
    rcases names t ht with ht | ht
    · obtain ⟨label, -, avail⟩ := h.labels (h.strict_iff.1 hs) t (.inl ht)
      exact ⟨label, fun x hx => h.known isOpen (h.strict_iff.1 hs) x ((avail x).1 hx)⟩
    · obtain ⟨label, -, avail⟩ := h.hold (.target t) ht hs
      exact ⟨label, avail⟩
  refine h.push hk (.inl ⟨result, rfl⟩) (fun hs x hx => ?_) (fun hs t ht => (target hs t ht).1)
    (fun hs t ht => (target hs t (i.targets_subset_labelIds ht)).2) (by simp [joins])
  exact (values.holds l _ h.hold (.value x) (mem_map_of_mem hx) hs).1

theorem halt (cursor : Cursor) (lasting : ∀ φ ∈ kept, φ.isLasting ∧ φ ∈ g.facts) :
    o.Reaches { g with isOpen := false, facts := kept } l
      { s with builder := s.builder.halted cursor } :=
  { h with
    sound := fun hs => (h.sound hs).move hs ((h.sound hs).builder.halted cursor)
      (follows_halted cursor) (.refl l) fun isOpen => by cases isOpen
    follows := h.follows.trans (follows_halted cursor)
    opened := rfl
    known := fun isOpen => by cases isOpen
    hold := fun φ hφ => (h.hold φ (lasting φ hφ).2).mono_of_isLasting (follows_halted cursor)
      (lasting φ hφ).1 }

/-- What was known where the construct started belongs to the function. -/
theorem own (hs : l.strict) :
    ∀ f, s.builder.current? = some f → ∀ x, o.Knows x → s.builder.Shared l x ∨ x ∈ f.ids := by
  intro f hf x hx
  obtain ⟨k, hk⟩ := Option.isSome_iff_exists.1 o.isOpen
  obtain ⟨label, -, leaves⟩ := (o.sound (h.strict_iff.1 hs)).builder.leaves_of_known hk
  exact (h.follows.leaves (h.strict_iff.1 hs) label x (leaves x hx)).own (h.sound hs).builder hf

/-- A label is handed out, for a block that asks for what was known where the construct started. -/
theorem fresh : o.Reaches { g with
      labels := g.labels ++ [s.builder.output.bound]
      pending := g.pending ++ [s.builder.output.bound] }
      (l.owe s.builder.output.bound .label o.Knows) { s with builder := s.builder.handOut } := by
  have follows : s.builder.Follows l (l.owe s.builder.output.bound .label o.Knows)
      s.builder.handOut := follows_owe (by simp)
  have known : l.strict → ∀ x, s.builder.Known l x →
      s.builder.handOut.Known (l.owe s.builder.output.bound .label o.Knows) x :=
    fun hs _ => Known.owe (h.sound hs).builder
  have same : l.Same (l.owe s.builder.output.bound .label o.Knows) :=
    ⟨rfl, rfl, rfl, fun x => by simp [Ledger.owe]⟩
  refine ⟨fun hs => ?_, h.follows.trans follows, fun hs t ht => ?_, fun hs => ?_, fun hs x => ?_,
    h.opened, fun isOpen hs x hx => ?_, h.scopes, ?_, h.returnType, h.signatures, fun φ hφ => ?_⟩
  · refine (h.sound hs).move hs ((h.sound hs).builder.owe (by simp) o.Knows (h.own hs)) follows same
      fun isOpen => h.jumps (h.strict_iff.1 hs) follows fun x hx => ?_
    exact known hs x (h.known (h.opened ▸ isOpen) (h.strict_iff.1 hs) x hx)
  · have cases : (t ∈ g.labels ∨ t ∈ g.pending) ∨ t = s.builder.output.bound := by
      simp only [mem_append, mem_singleton] at ht
      exact ht.elim (fun ht => ht.imp_left .inl) fun ht => ht.imp_left .inr
    rcases cases with ht | rfl
    · obtain ⟨label, below, avail⟩ := h.labels hs t ht
      refine ⟨label.owe, Nat.lt_succ_of_lt below, fun x => ?_⟩
      rw [avail_owe (Nat.ne_of_lt below)]
      exact avail x
    · exact ⟨.inl mem_cons_self, Nat.lt_succ_self _, fun x => by simp [Ledger.owe]⟩
  · obtain ⟨nodup, above⟩ := h.distinct hs
    refine ⟨nodup_append.2 ⟨nodup, by simp, fun t ht u hu => ?_⟩, fun t ht => ?_⟩
    · obtain rfl := mem_singleton.1 hu
      have owed : (t, Role.label) ∈ l.owed := (h.owed hs t).2 (.inr ht)
      exact Nat.ne_of_lt ((h.sound (h.strict_iff.2 hs)).builder.below t
        (.inl (mem_map_of_mem owed)))
    · rcases mem_append.1 ht with ht | ht
      · exact above t ht
      · exact mem_singleton.1 ht ▸ h.follows.bound
  · simp only [Ledger.owe, mem_cons, Prod.mk.injEq, and_true, mem_append, h.owed hs x,
      not_mem_nil, or_false]
    exact ⟨fun h => h.elim (fun h => .inr (.inr h)) fun h => h.imp_right .inl,
      fun h => h.elim (fun h => .inr (.inl h)) fun h => h.elim (fun h => .inr (.inr h)) .inl⟩
  · exact known (h.strict_iff.2 hs) x (h.known isOpen hs x hx)
  · exact fun scope hscope t ht => mem_append_left _ (h.inner scope hscope t ht)
  · exact (h.hold φ hφ).mono_of follows known fun h => h

/-- A block of the construct begins. What was known where the construct started is known again. -/
theorem begin {rest : List Ident} (live : Bool)
    (order : g.pending.Perm (t :: rest)) (lasting : ∀ φ ∈ kept, φ.isLasting ∧ φ ∈ g.facts) :
    o.Reaches { g with pending := rest, isOpen := true, facts := o.facts ++ kept }
      (l.settle t .label)
      { s with builder := s.builder.opened t (some s.builder.blockCount)
                            (s.builder.toCursor.begin t live) } := by
  obtain ⟨f, hf⟩ := Option.isSome_iff_exists.1 (h.follows.isSome_current? o.inside)
  have owed : o.ledger.strict → (t, Role.label) ∈ l.owed :=
    fun hs => (h.owed hs t).2 (.inr (order.mem_iff.2 mem_cons_self))
  have soundB : l.strict → s.builder.Sound l := fun hs => (h.sound hs).builder
  have follows : s.builder.Follows l (l.settle t .label)
      (s.builder.opened t (some s.builder.blockCount) (s.builder.toCursor.begin t live)) :=
    follows_opened hf
      (fun straight => h.strict_iff.2 (o.awake (h.follows.straight ▸ straight))) soundB
      fun hs => owed (h.strict_iff.1 hs)
  have nonempty : o.ledger.strict → 0 < s.builder.blockCount :=
    fun hs => Nat.lt_of_lt_of_le (o.blockCount_pos hs) h.follows.blocks
  have soundB' : l.strict →
      (s.builder.opened t (some s.builder.blockCount)
      (s.builder.toCursor.begin t live)).Sound (l.settle t .label) := by
    intro hs
    have hs0 := h.strict_iff.1 hs
    refine (soundB hs).opened hs hf (owed hs0) (fun k hk => ?_) fun none => ?_
    · cases hk
      exact ⟨rfl, nonempty hs0, Cursor.currentBlock_begin _ _ _⟩
    · obtain ⟨-, fs, hfs⟩ := exists_functions hf
      have zero : s.builder.blockCount = 0 := by simp [blockCount, hfs, none]
      exact absurd zero (Nat.ne_of_gt (nonempty hs0))
  have known : o.ledger.strict → ∀ x, o.Knows x →
      (s.builder.opened t (some s.builder.blockCount)
      (s.builder.toCursor.begin t live)).Known (l.settle t .label) x := by
    intro hs x hx
    have asks := (h.labels hs t (.inr (order.mem_iff.2 mem_cons_self))).2.2 x
    obtain ⟨-, block, here, label⟩ := (soundB' (h.strict_iff.2 hs)).here _ rfl
    have same : some t = some block.label :=
      (Cursor.currentBlock_begin s.builder.toCursor t live).symm.trans label
    exact .inr ⟨block, here, .inl (Option.some.inj same ▸ asks.2 hx)⟩
  have same : l.Same (l.settle t .label) :=
    ⟨rfl, rfl, rfl, fun x => Ledger.mem_settle_of_ne (by simp)⟩
  refine ⟨fun hs => ?_, h.follows.trans follows, fun hs u hu => ?_, fun hs => ?_,
    fun hs x => ?_, rfl, fun _ => known, h.scopes, h.inner, h.returnType,
    h.signatures, fun φ hφ => ?_⟩
  · exact (h.sound hs).move hs (soundB' hs) follows same
      fun _ => h.jumps (h.strict_iff.1 hs) follows (known (h.strict_iff.1 hs))
  · have old : u ∈ g.labels ∨ u ∈ g.pending :=
      hu.imp_right fun hu => order.mem_iff.2 (mem_cons_of_mem t hu)
    obtain ⟨label, below, avail⟩ := h.labels hs u old
    exact ⟨follows.label (h.strict_iff.2 hs) u label, below, avail⟩
  · obtain ⟨nodup, above⟩ := h.distinct hs
    exact ⟨(nodup_cons.1 (order.nodup_iff.1 nodup)).2,
      fun u hu => above u (order.mem_iff.2 (mem_cons_of_mem t hu))⟩
  · obtain ⟨nodup, above⟩ := h.distinct hs
    have new : (t, Role.label) ∉ o.ledger.owed := fun old => Nat.lt_irrefl t
      (Nat.lt_of_lt_of_le ((o.sound hs).builder.below t (.inl (mem_map_of_mem old)))
        (above t (order.mem_iff.2 mem_cons_self)))
    have fresh : t ∉ rest := (nodup_cons.1 (order.nodup_iff.1 nodup)).1
    rw [(soundB (h.strict_iff.2 hs)).mem_settle (owed hs), h.owed hs x, order.mem_iff]
    by_cases hx : x = t
    · subst hx
      simp [new, fresh]
    · simp [hx]
  · rcases mem_append.1 hφ with hφ | hφ
    · exact (o.hold φ hφ).mono_of (h.follows.trans follows) known fun _ => rfl
    · exact (h.hold φ (lasting φ hφ).2).mono_of_isLasting follows (lasting φ hφ).1

theorem forget (sub : ∀ t ∈ labels, t ∈ g.labels)
    (inner : ∀ scope ∈ g.scopes, ∀ t ∈ scope.labels, t ∈ labels) :
    o.Reaches { g with labels } l s :=
  { h with
    labels := fun hs t ht => h.labels hs t (ht.imp_left (sub t))
    inner := inner }

theorem within (inner : ∀ scope ∈ scopes, ∀ t ∈ scope.labels, t ∈ g.labels) :
    o.Reaches { g with scopes } l { s with scopes := scopes ++ o.state.scopes } :=
  { h with
    sound := fun hs => (h.sound hs).move hs (h.sound hs).builder (.refl l _)
      (.refl l) fun isOpen => h.jumpsOf (h.strict_iff.1 hs) (.refl l _)
        (h.known (h.opened ▸ isOpen) (h.strict_iff.1 hs)) inner
    scopes := rfl
    inner := inner }

end Origin.Reaches

/-! ## Rules -/

namespace Goes

variable {labels pending : List Ident} {isOpen : Bool} {scopes : List JumpScope}
  {facts before : List Fact} {g : Headway} {isOpen' : Bool} {labels' : List Ident}
  {operands : List Operand} {op : Opcode} {base : List Fact} {x y z : Stance}
  {effect first : Effect State} {p : Program} {whole : Prop} {calls others : List FunctionId}
  {c : Codegen α} {f : α → Codegen β} {mid : α → Headway} {out : β → Headway}

/-- Two steps, the first of which gives only certain results. -/
theorem join {second : Effect State} (joined : first.Joined second effect) {P : α → Prop}
    (gives : ∀ s a t, Ends c s a t → P a) (hc : Goes base x y first g c mid)
    (hf : ∀ a, P a → Goes base y z second (mid a) (f a) out) : Goes base x z effect g
    (c >>= f) out where
  goes o ho l s r u reaches ends := by
    obtain ⟨a, t, starts, rest⟩ := ends_bind ends
    obtain ⟨l', reaches'⟩ := hc.goes o ho l s a t reaches starts
    exact (hf a (gives s a t starts)).goes o ho l' t r u reaches' rest
  acts := hc.acts.join joined fun s a t ends => (hf a (gives s a t ends)).acts

theorem bind [Absorbs effect first] (hc : Goes base x y first g c mid)
    (hf : ∀ a, Goes base y z effect (mid a) (f a) out) : Goes base x z effect g (c >>= f) out :=
  .join Absorbs.toJoined (P := fun _ => True) (fun _ _ _ _ => trivial) hc fun a _ => hf a

theorem both (hc : Goes base x y (Calling p whole calls) g c mid)
    (hf : ∀ a, Goes base y z (Calling p whole others) (mid a) (f a) out) :
    Goes base x z (Calling p whole (calls ++ others)) g (c >>= f) out :=
  .join CallsFrom.joined (P := fun _ => True) (fun _ _ _ _ => trivial) hc fun a _ => hf a

theorem quiet (h : Goes base x y (Quiet p) g c mid) : Goes base x y (Calling p whole []) g c mid :=
  ⟨h.goes, CallsFrom.quiet h.acts⟩

theorem cast (h : Goes base x y (Calling p whole calls) g c mid) (same : others = calls) :
    Goes base x y (Calling p whole others) g c mid := same ▸ h

theorem ahead (hc : Goes base x y (Calling p whole calls) g c mid)
    (hf : ∀ a, Goes base y z (Quiet p) (mid a) (f a) out) :
    Goes base x z (Calling p whole calls) g (c >>= f) out :=
  (hc.both fun a => (hf a).quiet).cast (append_nil calls).symm

theorem pure [Content effect] {a : α} {after : α → List Fact} [h : Entails facts (after a)] :
    Goes base x x effect ⟨labels, pending, isOpen, scopes, facts⟩ (Pure.pure a : Codegen α)
      fun a => ⟨labels, pending, isOpen, scopes, after a⟩ where
  goes _ _ l s r t reaches ends := by
    cases ends
    exact ⟨l, reaches.facts (h.holds l _ reaches.hold)⟩
  acts := .pure

/-- The order of the labels that have no block yet does not matter. -/
theorem order (perm : pending.Perm pending')
    (h : Goes base x y effect ⟨labels, pending', isOpen, scopes, facts⟩ c mid) :
    Goes base x y effect ⟨labels, pending, isOpen, scopes, facts⟩ c mid := by
  refine ⟨fun o ho l s a t reaches => h.goes o ho l s a t
    { reaches with labels := fun hs t ht => ?_, distinct := fun hs => ?_, owed := fun hs x => ?_ },
    h.acts⟩
  · exact reaches.labels hs t (ht.imp_right perm.mem_iff.2)
  · obtain ⟨nodup, above⟩ := reaches.distinct hs
    exact ⟨perm.nodup_iff.1 nodup, fun t ht => above t (perm.mem_iff.2 ht)⟩
  · rw [reaches.owed hs x, perm.mem_iff]

theorem forget {facts' : α → List Fact}
    (h : Goes base x y effect g c fun a => ⟨labels', pending', isOpen', scopes, facts' a⟩)
    (sub : ∀ t ∈ labels, t ∈ labels') (inner : ∀ scope ∈ scopes, ∀ t ∈ scope.labels, t ∈ labels) :
    Goes base x y effect g c fun a => ⟨labels, pending', isOpen', scopes, facts' a⟩ where
  goes o ho l s a t reaches ends := by
    obtain ⟨l', reaches'⟩ := h.goes o ho l s a t reaches ends
    exact ⟨l', reaches'.forget sub inner⟩
  acts := h.acts

theorem learn (extra : List Fact) (h : Entails facts extra)
    (hc : Goes base x y effect ⟨labels, pending, isOpen, scopes, extra ++ facts⟩ c mid) :
    Goes base x y effect ⟨labels, pending, isOpen, scopes, facts⟩ c mid := by
  refine ⟨fun o ho l s a t reaches ends => ?_, hc.acts⟩
  refine hc.goes o ho l s a t (reaches.facts fun φ hφ => ?_) ends
  rcases mem_append.1 hφ with hφ | hφ
  · exact h.holds l _ reaches.hold φ hφ
  · exact reaches.hold φ hφ

theorem failAt {span : Span} {cause : Cause} (h : (Failure.generating cause span).wanted? = none) :
    Goes base x y effect g (Codegen.failAt span cause : Codegen α) mid where
  goes _ _ _ _ _ _ _ ends := by cases ends
  acts := .failAt h

theorem lookBuilder {f : Builder → Codegen α} (same : ∀ b : Builder, f b.stripped = f b)
    (h : ∀ b, Goes base x y effect g (f b) mid) : Goes base x y effect g (Codegen.builder >>= f)
    mid where
  goes o ho l s a t reaches ends := by
    obtain ⟨b, s1, hget, ends⟩ := ends_bind ends
    cases hget
    exact (h _).goes o ho l s a t reaches ends
  acts := .lookBuilder same fun b => (h b).acts

/-- A look at the constructs that jumps can leave. -/
theorem lookScopes (p : Program) (xs : List SymbolId) [body : Gives facts (.body p xs)]
    {f : State → Codegen α} (same : ∀ s : State, f (World.strip s) = f s)
    (h : ∀ s : State, Goes base x y effect ⟨labels, pending, isOpen,
      scopes, (s.scopes.flatMap fun scope => scope.labels.map .target) ++ facts⟩ (f s) mid) :
    Goes base x y effect ⟨labels, pending, isOpen, scopes, facts⟩ (get >>= f) mid where
  goes o ho l s a t reaches ends := by
    have hold := Fact.allHold_cons (body.holds l _ reaches.hold) Fact.allHold_nil
    obtain ⟨l', sound, grows, same, hold⟩ := Runs.getScopes p xs l s s s reaches.sound hold rfl
    exact (h s).goes o ho l' s a t (reaches.grow sound grows same hold) (ends_get ends)
  acts := .lookState same fun s => (h s).acts

theorem run {after : α → List Fact} (hc : Does effect before c after x)
    [h : Entails facts before] : Goes base x x effect ⟨labels, pending, isOpen, scopes, facts⟩ c
      fun a => ⟨labels, pending, isOpen, scopes, after a ++ facts⟩ where
  goes o _ l s a t reaches ends := by
    obtain ⟨l', sound, grows, same, hold⟩ :=
      hc.runs l s a t reaches.sound (h.holds l _ reaches.hold) ends
    exact ⟨l', reaches.grow sound grows same hold⟩
  acts := hc.acts

theorem fresh : Goes base x x (Quiet p) ⟨labels, pending, isOpen, scopes, facts⟩
    (liftM Builder.fresh : Codegen Ident)
    fun t => ⟨labels ++ [t], pending ++ [t], isOpen, scopes, facts⟩ where
  goes o _ l s t u reaches ends := by
    cases ends
    exact ⟨_, reaches.fresh⟩
  acts := Codegen.build_callFree fresh_acts

theorem freshAll (list : List β) : Goes base x x (Quiet p) ⟨labels, pending, isOpen, scopes, facts⟩
    (list.mapM fun _ => (liftM Builder.fresh : Codegen Ident))
    fun ts => ⟨labels ++ ts, pending ++ ts, isOpen, scopes, facts⟩ := by
  induction list generalizing labels pending with
  | nil =>
    refine ⟨fun o _ l s ts t reaches ends => ?_, .pure⟩
    cases ends
    exact ⟨l, by simpa using reaches⟩
  | cons a rest ih =>
    rw [mapM_cons]
    refine .bind .fresh fun t => .bind ih fun ts => ⟨fun o _ l s us u reaches ends => ?_, .pure⟩
    cases ends
    exact ⟨l, by simpa using reaches⟩

theorem emitVoid (noCall : op ≠ .functionCall)
    (values : Entails facts ((valueIds { op, operands }).map .value))
    (names : ∀ t ∈ labelIds { op, operands }, t ∈ labels) (joins : incoming { op, operands } = []) :
    Goes base .inside .inside (Quiet p) ⟨labels, pending, isOpen, scopes, facts⟩
      (liftM (Builder.emitVoid op operands) : Codegen Unit)
      fun _ => ⟨labels, pending, isOpen, scopes, facts⟩ where
  goes o _ l s u t reaches ends := by
    obtain ⟨b, inner, rfl⟩ := ends_lift Build ends
    obtain ⟨k, -, hk, rfl⟩ := ends_append inner
    exact ⟨l, reaches.pushVoid hk rfl values (fun t ht => .inl (names t ht)) joins⟩
  acts := Codegen.build_callFree (emitVoid_acts noCall operands)

theorem endBlock (kept : List Fact) (noCall : i.op ≠ .functionCall)
    (values : Entails facts (i.valueIds.map .value))
    (names : ∀ t ∈ i.labelIds, t ∈ labels ∨ .target t ∈ facts)
    (lasting : ∀ φ ∈ kept, φ.isLasting ∧ φ ∈ facts) (result : i.result = none)
    (joins : i.incoming = []) : Goes base .inside .between (Quiet p)
      ⟨labels, pending, isOpen, scopes, facts⟩ (liftM (Builder.endBlock i) : Codegen Unit)
      fun _ => ⟨labels, pending, false, scopes, kept⟩ where
  goes o _ l s u t reaches ends := by
    obtain ⟨b, inner, rfl⟩ := ends_lift Build ends
    obtain ⟨k, hk, rfl⟩ := ends_endBlock inner
    exact ⟨l, (reaches.pushVoid hk result values names joins).halt _ lasting⟩
  acts := Codegen.build_callFree (endBlock_acts noCall)

theorem endWith (kept : List Fact) (noCall : op ≠ .functionCall)
    (values : Entails facts ((valueIds { op, operands }).map .value))
    (lasting : ∀ φ ∈ kept, φ.isLasting ∧ φ ∈ facts) (names : labelIds { op, operands } = [])
    (joins : incoming { op, operands } = []) : Goes base .inside .between (Quiet p)
      ⟨labels, pending, isOpen, scopes, facts⟩ (liftM (Builder.endWith op operands) : Codegen Unit)
      fun _ => ⟨labels, pending, false, scopes, kept⟩ where
  goes o _ l s u t reaches ends := by
    obtain ⟨b, inner, rfl⟩ := ends_lift Build ends
    obtain ⟨k, hk, rfl⟩ := ends_endWith inner
    exact ⟨l, (reaches.pushVoid hk rfl values (by simp [names]) joins).halt _ lasting⟩
  acts := Codegen.build_callFree (endWith_acts noCall operands)

theorem branch (kept : List Fact) (ht : t ∈ labels ∨ .target t ∈ facts)
    (lasting : ∀ φ ∈ kept, φ.isLasting ∧ φ ∈ facts) : Goes base .inside .between (Quiet p)
      ⟨labels, pending, isOpen, scopes, facts⟩ (liftM (Builder.branch t) : Codegen Unit)
      fun _ => ⟨labels, pending, false, scopes, kept⟩ := by
  refine endBlock kept (by simp) (by simp [valueIds]) (fun u hu => ?_) lasting rfl rfl
  obtain rfl : u = t := by simpa [labelIds, ids] using hu
  exact ht

theorem branchIf {c e : Ident} (kept : List Fact) [hc : Gives facts (.value c)] (ht : t ∈ labels)
    (he : e ∈ labels) (lasting : ∀ φ ∈ kept, φ.isLasting ∧ φ ∈ facts) :
    Goes base .inside .between (Quiet p)
      ⟨labels, pending, isOpen, scopes, facts⟩ (liftM (Builder.branchIf c t e) : Codegen Unit)
      fun _ => ⟨labels, pending, false, scopes, kept⟩ := by
  refine endBlock kept (by simp) (by simpa [valueIds, ids] using hc)
    (fun u hu => .inl ?_) lasting rfl rfl
  have either : u = t ∨ u = e := by simpa [labelIds, ids] using hu
  rcases either with rfl | rfl
  · exact ht
  · exact he

theorem selectionMerge {merge : Ident} {control : Nat} (h : merge ∈ labels) :
    Goes base .inside .inside (Quiet p) ⟨labels, pending, isOpen, scopes, facts⟩
      (liftM (Builder.selectionMerge merge control) : Codegen Unit)
      fun _ => ⟨labels, pending, isOpen, scopes, facts⟩ := by
  refine emitVoid (by decide) (by simp [valueIds]) (fun t ht => ?_) rfl
  obtain rfl : t = merge := by simpa [labelIds, ids] using ht
  exact h

theorem liftBind {c : Build α} {f : α → Build β} (acts : Acting x z Builder.Building (c >>= f))
    (hc : Goes base x y (Quiet p) g (liftM c : Codegen α) mid)
    (hf : ∀ a, Goes base y z (Quiet p) (mid a) (liftM (f a) : Codegen β) out) :
    Goes base x z (Quiet p) g (liftM (c >>= f) : Codegen β) out where
  goes o ho l s r u reaches ends := by
    obtain ⟨b, inner, rfl⟩ := ends_lift Build ends
    obtain ⟨a, d, starts, rest⟩ := ends_bind inner
    obtain ⟨l', reaches'⟩ := hc.goes o ho l s a _ reaches (Embeds.lift_ends (m := Build) starts)
    exact (hf a).goes o ho l' _ r _ reaches' (Embeds.lift_ends (m := Build) rest)
  acts := Codegen.build_callFree acts

theorem finishBlock (kept : List Fact) (ht : t ∈ labels ∨ .target t ∈ facts)
    (lasting : ∀ φ ∈ kept, φ.isLasting ∧ φ ∈ facts) : Goes base .inside .between (Quiet p)
      ⟨labels, pending, isOpen, scopes, facts⟩ (liftM (Builder.finishBlock t) : Codegen Unit)
      fun _ => ⟨labels, pending, false, scopes, kept⟩ := by
  refine ⟨fun o ho l s u v reaches ends => ?_, Codegen.build_callFree (finishBlock_acts t)⟩
  obtain ⟨b, inner, rfl⟩ := ends_lift Build ends
  replace inner := ends_get inner
  split at inner
  · exact (branch (p := p) kept ht lasting).goes o ho l s u _ reaches
      (Embeds.lift_ends (m := Build) inner)
  · exact (endWith (p := p) kept (by simp) (by simp [valueIds, ids]) lasting rfl rfl).goes o
      ho l s u _
      reaches (Embeds.lift_ends (m := Build) inner)

theorem beginAt {live : Bool} (kept : List Fact) (lasting : ∀ φ ∈ kept, φ.isLasting ∧ φ ∈ facts) :
    Goes base .between .inside (Quiet p) ⟨labels, t :: pending, false, scopes, facts⟩
      (Codegen.beginAt t live) fun _ => ⟨labels, pending, true, scopes, base ++ kept⟩ := by
  refine ⟨fun o ho l s u v reaches ends => ?_,
    .bind (Codegen.build_callFree (beginBlock_acts t)) fun _ => ?_⟩
  · obtain ⟨f, hf⟩ := Option.isSome_iff_exists.1 (reaches.follows.isSome_current? o.inside)
    obtain rfl := Codegen.ends_beginAt hf ends
    subst ho
    exact ⟨_, reaches.begin live (.refl _) lasting⟩
  · split
    · exact Codegen.build_callFree markDead_acts
    · exact .pure

theorem beginBlock (kept : List Fact) (lasting : ∀ φ ∈ kept, φ.isLasting ∧ φ ∈ facts) :
    Goes base .between .inside (Quiet p) ⟨labels, t :: pending, false, scopes, facts⟩
      (liftM (Builder.beginBlock t) : Codegen Unit)
      fun _ => ⟨labels, pending, true, scopes, base ++ kept⟩ where
  goes o ho l s u v reaches ends := by
    obtain ⟨f, hf⟩ := Option.isSome_iff_exists.1 (reaches.follows.isSome_current? o.inside)
    obtain ⟨b, inner, rfl⟩ := ends_lift Build ends
    obtain rfl := ends_beginBlock hf inner
    subst ho
    exact ⟨_, reaches.begin true (.refl _) lasting⟩
  acts := Codegen.build_callFree (beginBlock_acts t)

theorem beginDeadBlock (kept : List Fact) (lasting : ∀ φ ∈ kept, φ.isLasting ∧ φ ∈ facts) :
    Goes base .between .inside (Quiet p) ⟨labels, pending, false, scopes, facts⟩
      (liftM Builder.beginDeadBlock : Codegen Unit)
      fun _ => ⟨labels, pending, true, scopes, base ++ kept⟩ where
  goes o ho l s u v reaches ends := by
    obtain ⟨f, hf⟩ := Option.isSome_iff_exists.1 (reaches.follows.isSome_current? o.inside)
    obtain ⟨b, inner, rfl⟩ := ends_lift Build ends
    obtain ⟨t, b1, hfresh, inner⟩ := ends_bind inner
    cases hfresh
    obtain ⟨_, b2, rfl, inner⟩ := ends_then (ends_beginBlock (b := s.builder.handOut) hf) inner
    cases inner
    subst ho
    have begun := reaches.fresh.begin false (perm_append_singleton _ _) lasting
    exact ⟨_, begun.forget (fun t ht => mem_append_left _ ht) reaches.inner⟩
  acts := Codegen.build_callFree beginDeadBlock_acts

theorem within {scope : JumpScope} {step : Codegen Unit}
    {facts' : List Fact} (sub : ∀ t ∈ scope.labels, t ∈ labels)
    (h : Goes base x y (Calling p whole calls) ⟨labels, pending, isOpen, scope :: scopes, facts⟩
      step fun _ => ⟨labels', pending', isOpen', scope :: scopes, facts'⟩) :
    Goes base x y (Calling p whole calls) ⟨labels, pending, isOpen, scopes, facts⟩
      (Codegen.within scope step) fun _ => ⟨labels', pending', isOpen', scopes, facts'⟩ where
  goes o ho l s u v reaches ends := by
    obtain ⟨_, s1, enters, ends⟩ := ends_bind ends
    cases enters
    obtain ⟨_, s2, steps, ends⟩ := ends_bind ends
    cases ends
    have inner : ∀ scope' ∈ scope :: scopes, ∀ t ∈ scope'.labels, t ∈ labels := by
      intro scope' hscope
      rcases mem_cons.1 hscope with rfl | hscope
      · exact sub
      · exact reaches.inner scope' hscope
    have entered := reaches.within inner
    have same : s.scopes = scopes ++ o.state.scopes := reaches.scopes
    obtain ⟨l', left⟩ := h.goes o ho l _ () s2 (by simpa [same] using entered) steps
    have out := left.within fun (scope' : JumpScope) (hscope : scope' ∈ scopes) =>
      left.inner scope' (mem_cons_of_mem _ hscope)
    have tail : s2.scopes.tail = scopes ++ o.state.scopes := by rw [left.scopes]; rfl
    exact ⟨l', by simpa [tail] using out⟩
  acts := CallsFrom.after (.remember (fun s => .step (.refl s) (.remember _ _ _)) fun _ _ => rfl)
    fun _ =>
    CallsFrom.before h.acts fun _ =>
      .remember (fun s => .step (.refl s) (.remember _ _ _)) fun _ _ => rfl

theorem phi {type a b leaveA leaveB : Ident}
    [h : Entails facts [.shared type, .leaves leaveA a, .leaves leaveB b]] :
    Goes base .inside .inside (Quiet p) ⟨labels, pending, true, scopes, facts⟩
      (Codegen.emitOn .phi type [a, leaveA, b, leaveB])
      fun id => ⟨labels, pending, true, scopes, .value id :: facts⟩ := by
  refine ⟨fun o _ l s id v reaches ends => ?_, Codegen.build_callFree (emit_acts (by decide) _ _)⟩
  obtain ⟨c, inner, rfl⟩ := ends_lift Build ends
  obtain ⟨rfl, k, -, hk, rfl⟩ := ends_emit inner
  have holds := h.holds l _ reaches.hold
  have leaves : l.strict → ∀ q ∈ [(a, leaveA), (b, leaveB)], s.builder.Leaves l q.2 q.1 := by
    intro hs q hq
    rcases mem_cons.1 hq with rfl | hq
    · exact holds (.leaves leaveA a) (by simp) hs
    · obtain rfl := mem_singleton.1 hq
      exact holds (.leaves leaveB b) (by simp) hs
  have pushed : o.Reaches ⟨labels, pending, true, scopes, facts⟩ l
      { s with
        builder := s.builder.pushed k
          (phiInstruction type a leaveA b leaveB s.builder.output.bound)
          (s.builder.output.bound + 1) } := by
    refine reaches.push hk (.inr ⟨rfl, rfl⟩) (fun hs x hx => ?_) (fun hs t ht => ?_)
      (by simp [targets, phiInstruction]) fun hs q hq => ?_
    · obtain rfl : x = type := by simpa [valueIds, phiInstruction] using hx
      exact .inl (.inl (Global.shared (holds (.shared x) (by simp) hs)))
    · have label : t = leaveA ∨ t = leaveB := by
        simpa [labelIds, ids, pairUp, phiInstruction] using ht
      have isLabel : ∀ q ∈ [(a, leaveA), (b, leaveB)], s.builder.IsLabel l q.2 := by
        intro q hq
        obtain ⟨-, f, block, hf, hblock, label, -⟩ := leaves hs q hq
        exact .inr ⟨f, hf, label ▸ mem_map_of_mem hblock⟩
      rcases label with rfl | rfl
      · exact isLabel (a, t) (by simp)
      · exact isLabel (b, t) (by simp)
    · exact leaves hs q
        (by simpa [incoming, ids, pairUp, phiInstruction] using hq)
  refine ⟨l, pushed.facts (Fact.allHold_cons (fun hs => ?_) pushed.hold)⟩
  exact (reaches.sound hs).builder.known_pushed hk rfl

end Goes

/-! ## Whole constructs -/

/-- The construct has come to its end. -/
def Headway.done (facts : List Fact) : Headway := ⟨[], [], true, [], facts⟩

theorem Goes.done {g : Headway} {c : Codegen α} {facts after : α → List Fact} {base : List Fact}
    {x y : Stance} {effect : Effect State}
    (h : Goes base x y effect g c fun a => ⟨labels, [], true, [], facts a⟩)
    [q : ∀ a, Entails (facts a) (after a)] : Goes base x y effect g c fun a => .done (after a) where
  goes o ho l s a t reaches ends := by
    obtain ⟨l', reaches'⟩ := h.goes o ho l s a t reaches ends
    have forgot : o.Reaches ⟨[], [], true, [], facts a⟩ l' t :=
      reaches'.forget (by simp) (by simp)
    exact ⟨l', forgot.facts ((q a).holds l' _ reaches'.hold)⟩
  acts := h.acts

theorem Does.of_goes (p : Program) (xs : List SymbolId) {before : List Fact} {c : Codegen α}
    {after : α → List Fact} {effect : Effect State} [body : Gives before (.body p xs)]
    (writes : ∀ v, Writes v c fun _ _ _ => True)
    (h : Goes before .inside .inside effect ⟨[], [], true, [], before⟩ c fun a => .done (after a)) :
    Does effect before c after := by
  refine ⟨fun l s a t sound hold ends => ?_, h.acts⟩
  obtain ⟨isOpen, inside, awake, -⟩ := body.holds l _ hold
  let o : Origin := ⟨l, s, before, sound, hold, isOpen, inside, awake⟩
  have start : o.Reaches ⟨[], [], true, [], before⟩ l s :=
    { sound := sound
      follows := .refl l _
      labels := fun _ t ht => by simp at ht
      distinct := fun _ => ⟨nodup_nil, fun t ht => by cases ht⟩
      owed := fun _ x => by simp [o]
      opened := isOpen
      known := fun _ _ x hx => hx
      scopes := rfl
      inner := fun scope hscope => by cases hscope
      returnType := rfl
      signatures := rfl
      hold := hold }
  obtain ⟨l', reaches⟩ := h.goes o rfl l s a t start ends
  have emits : s.builder.Emits s.exits t.builder :=
    { bound := reaches.follows.bound
      outside := fun out => by
        have none : s.builder.current? = none := by simp [current?, out]
        exact absurd inside (by simp [World.builder, none])
      inside := fun site front d at_ => by
        obtain ⟨vars, piece, high, -, opens, added⟩ :=
          writes _ s a t site front d s.scopes s.builder.output.bound ⟨at_, rfl, rfl⟩ ends
        exact ⟨vars, piece, opens.at_, added.locals, added.valid, opens.bound ▸ added.spread⟩ }
  exact ⟨l', reaches.sound,
    { toFollows := reaches.follows
      known := reaches.known rfl
      owed := fun hs x => by simpa [Headway.done] using reaches.owed hs x
      opened := reaches.opened.trans isOpen.symm },
    ⟨reaches.scopes, reaches.returnType, reaches.signatures, emits⟩, reaches.hold⟩

end ShaderGen
