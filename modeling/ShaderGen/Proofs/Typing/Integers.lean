import ShaderGen.Proofs.Scope.Program
import ShaderGen.Proofs.Typing.Stability

/-!
# Integer constants

A module has one constant for each value of an integer type, whoever asks for it and wherever. What
stands for the value in the module is its two's complement, extended to whole words (`IsLiteral`),
so two integers have the same constant if they agree in as many bits as the type has
(`Codegen.constant_canonical`).
-/

namespace ShaderGen

open Codegen Builder
open Steps (Ends)

variable {p : Program} {t : ShaderType} {value : ConstantValue} {width : Nat} {signed : Bool}

/-! ## Literals -/

/-- A scalar integer type. -/
structure ShaderType.IsInteger (t : ShaderType) (width : Nat) (signed : Bool) : Prop where
  isScalar : t.isScalar
  basic : t.basic = if signed then .int width else .uint width

/-- An integer in two's complement. Above the width, the literal repeats the sign of a signed
integer up to the end of its last word, and is zero otherwise. -/
structure IsLiteral (width : Nat) (signed : Bool) (i : Int) (bits : Nat) : Prop where
  low : (bits : Int) % 2 ^ width = i % 2 ^ width
  high : ∀ k ≥ width, bits.testBit k = (decide (k < max 32 width) && signed && bits.testBit
  (width - 1))

theorem toNat_ofInt_eq_wrap (n : Nat) (i : Int) : (BitVec.ofInt n i).toNat = wrap (2 ^ n) i :=
  BitVec.toNat_ofInt i

theorem toNat_signExtend_eq_wrap (n m : Nat) (i : Int) :
    ((BitVec.ofInt n i).signExtend m).toNat = wrap (2 ^ m) (i.bmod (2 ^ n)) := by
  rw [BitVec.signExtend, BitVec.toInt_ofInt, toNat_ofInt_eq_wrap]

theorem setWidth_signExtend {w n k : Nat} (x : BitVec w) (h : k ≤ n) :
    (x.signExtend n).setWidth k = x.signExtend k := by
  refine BitVec.eq_of_getLsbD_eq fun i inside => ?_
  simp only [BitVec.getLsbD_setWidth, BitVec.getLsbD_signExtend, inside,
    Nat.lt_of_lt_of_le inside h, decide_true, Bool.true_and]

theorem wrap_bmod (n : Nat) (i : Int) : wrap n (i.bmod n) = wrap n i :=
    congrArg Int.toNat (Int.bmod_emod ..)

theorem literalBits_integer (h : t.IsInteger width signed) (size : width ∈ [8, 16, 32, 64]) :
    literalBits value t = if signed then
    ((BitVec.ofInt width value.toInt).signExtend (max 32 width)).toNat
      else (BitVec.ofInt width value.toInt).toNat := by
  unfold literalBits
  rw [h.basic, toNat_ofInt_eq_wrap, toNat_signExtend_eq_wrap]
  obtain rfl | rfl | rfl | rfl : width = 8 ∨ width = 16 ∨ width = 32 ∨
    width = 64 := by simpa using size
  all_goals cases signed
  case inr.inr.inl.true => exact (wrap_bmod (2 ^ 32) _).symm
  case inr.inr.inr.true => exact (wrap_bmod (2 ^ 64) _).symm
  all_goals rfl

theorem isLiteral_literalBits (h : t.IsInteger width signed) (size : width ∈ [8, 16, 32, 64]) :
    IsLiteral width signed value.toInt (literalBits value t) := by
  have wide : 0 < width ∧ width ≤ max 32 width := by
    simp only [List.mem_cons, List.not_mem_nil, or_false] at size
    omega
  rw [literalBits_integer h size]
  have residue : ((BitVec.ofInt width value.toInt).toNat : Int) = value.toInt % 2 ^ width := by
    rw [BitVec.toNat_ofInt, Int.toNat_of_nonneg (Int.emod_nonneg _ (by positivity))]
    norm_cast
  cases signed with
  | false =>
    refine ⟨?_, fun k above => ?_⟩
    · rw [if_neg Bool.false_ne_true, residue, Int.emod_emod_of_dvd _ (dvd_refl _)]
    · rw [if_neg Bool.false_ne_true, Bool.and_false, Bool.false_and, BitVec.testBit_toNat]
      exact BitVec.getLsbD_of_ge _ _ above
  | true =>
    refine ⟨?_, fun k above => ?_⟩
    · have cut : ((BitVec.ofInt width value.toInt).signExtend (max 32 width)).toNat % 2 ^ width =
          (BitVec.ofInt width value.toInt).toNat := by
        rw [← BitVec.toNat_setWidth, setWidth_signExtend _ wide.2, BitVec.signExtend_eq]
      rw [if_pos rfl, ← residue, ← cut]
      norm_cast
    · rw [if_pos rfl, BitVec.testBit_toNat, BitVec.testBit_toNat, BitVec.getLsbD_signExtend,
        BitVec.getLsbD_signExtend, if_neg (Nat.not_lt.2 above),
        if_pos (Nat.sub_lt wide.1 Nat.one_pos)]
      have inside : width - 1 < max 32 width := by omega
      simp only [BitVec.msb_eq_getLsbD_last, inside, decide_true, Bool.true_and, Bool.and_true]

theorem literalBits_lt (h : t.IsInteger width signed) (size : width ∈ [8, 16, 32, 64]) :
    literalBits value t < 2 ^ max 32 width := by
  rw [literalBits_integer h size]
  split
  · exact BitVec.isLt _
  · exact (BitVec.isLt _).trans_le (Nat.pow_le_pow_right (by decide) (Nat.le_max_right ..))

theorem literalBits_eq_iff (h : t.IsInteger width signed) (size : width ∈ [8, 16, 32, 64])
    {value' : ConstantValue} :
    literalBits value t = literalBits value' t ↔
    value.toInt % 2 ^ width = value'.toInt % 2 ^ width := by
  refine ⟨fun same => ?_, fun same => ?_⟩
  · rw [← (isLiteral_literalBits h size).low, ← (isLiteral_literalBits h size).low, same]
  · have equal : BitVec.ofInt width value.toInt = BitVec.ofInt width value'.toInt := by
      refine BitVec.eq_of_toNat_eq ?_
      rw [BitVec.toNat_ofInt, BitVec.toNat_ofInt]
      exact congrArg Int.toNat (by exact_mod_cast same)
    rw [literalBits_integer h size, literalBits_integer h size, equal]

/-! ## Constants -/

namespace Codegen

/-- The type of an integer, which needs no more than its declaration. -/
theorem valueType_integer (h : t.IsInteger width signed) :
    valueType p t = (liftM (typeInt width signed) : Codegen Ident) := by
  have scalar := h.isScalar
  simp only [ShaderType.isScalar, ShaderType.isArray, Bool.and_eq_true, Bool.not_not,
    List.isEmpty_iff, beq_iff_eq, decide_eq_true_eq] at scalar
  obtain ⟨⟨⟨arrays, cols⟩, size⟩, -⟩ := scalar
  have shaped : ∀ id, shapedType (TypeRequest.plain t).type id = pure id := fun id => by
    rw [shapedType, if_neg (by simp [TypeRequest.plain, cols]), typeVector]
    exact if_pos size
  have alone : ∀ typer, typeStep p typer (.plain t) = elementType p typer (.plain t) :=
    fun typer => by
    rw [typeStep, show (TypeRequest.plain t).type.arrays = [] from arrays, typeWithDimensions]
  rw [valueType, typer, Program.typeDepth, typeWithin, alone, elementType]
  rw [show (TypeRequest.plain t).type.basic = _ from h.basic]
  cases signed <;> simp only [Bool.false_eq_true, if_false, if_true, shaped] <;> rfl

theorem constant_integer (h : t.IsInteger width signed)
    (single : ∀ parts, value ≠ .composite parts) : constant p (typer p) value t =
      (liftM (typeInt width signed >>= fun type => constBits type (literalBits value t)) :
        Codegen Ident) := by
  have filled : constant p (typer p) value t = filledConstant (typer p) value 3 t := by
    cases value with
    | composite parts => exact absurd rfl (single parts)
    | _ => rfl
  have number : ¬ t.isBool := by
    rw [ShaderType.isBool, h.basic]
    cases signed <;> simp
  have typed : typer p (.plain t) = (liftM (typeInt width signed) : Codegen Ident) :=
    valueType_integer h
  rw [filled, filledConstant, typed]
  simp only [h.isScalar, number, if_true]
  rfl

theorem literalOperand_integer {b : Builder} {type : Ident} (h : t.IsInteger width signed)
    (size : width ∈ [8, 16, 32, 64]) (form : b.form? type = some (.int width signed)) :
    b.literalOperand type (literalBits value t) =
      if width = 64 then .wide (literalBits value t) else .literal (literalBits value t) := by
  have short : literalBits value t < 2 ^ max 32 width := literalBits_lt h size
  rw [literalOperand, isWide, form]
  obtain rfl | rfl | rfl | rfl : width = 8 ∨ width = 16 ∨ width = 32 ∨
    width = 64 := by simpa using size
  case inr.inr.inr => rfl
  all_goals exact congrArg Operand.literal (Nat.mod_eq_of_lt short)

variable {s s' r r' u : State} {id id' : Ident}

theorem trace_constant (h : t.IsInteger width signed) (single : ∀ parts, value ≠ .composite parts)
    (regular : s.Regular p) (made : Ends (constant p (typer p) value t) s id s') :
    Trace p s s' ∧ s'.builder.HasInteger width signed (literalBits value t) id := by
  rw [constant_integer h single] at made
  obtain ⟨modest, integer⟩ := (constInteger_makes width signed _).lift made regular
  exact ⟨.single (.modest modest), integer⟩

theorem hasInteger_of_constant (h : t.IsInteger width signed)
    (single : ∀ parts, value ≠ .composite parts)
    (regular : s.Regular p) (made : Ends (constant p (typer p) value t) s id s')
    (after : Trace p s' u) :
    u.builder.Tidy ∧ u.builder.HasInteger width signed (literalBits value t) id := by
  obtain ⟨step, integer⟩ := trace_constant h single regular made
  have regular' := step.regular regular
  exact ⟨(after.regular regular').tidy, integer.later (after.keeps regular').later⟩

/-- In a run, integers have the same constant if they agree in as many bits as their type has. The
literal is remembered of the constant, and stands in the finished module. -/
theorem constant_canonical (o : Options) (h : t.IsInteger width signed)
    (size : width ∈ [8, 16, 32, 64]) :
    (∀ value, IsLiteral width signed value.toInt (literalBits value t)) ∧
    (∀ s value, (∀ parts, value ≠ .composite parts) → ∃ id s', Ends (constant p (typer p) value t)
      s id s') ∧
    (∀ u, Ends (whole p o) (p.initial o) () u → Trace p (p.initial o) u) ∧
    ∀ {s s' r r' u : State} {id id' : Ident} {value value' : ConstantValue},
      (∀ parts, value ≠ .composite parts) → (∀ parts, value' ≠ .composite parts) →
      Trace p (p.initial o) s → Ends (constant p (typer p) value t) s id s' → Trace p s' u →
      Trace p (p.initial o) r → Ends (constant p (typer p) value' t) r id' r' → Trace p r' u →
      (id = id' ↔ value.toInt % 2 ^ width = value'.toInt % 2 ^ width) ∧
      u.builder.literal? id = some (literalBits value t) ∧
      (Ends (whole p o) (p.initial o) () u → ∃ type, u.builder.form? type = some
        (.int width signed) ∧ u.builder.HasConstant .constant type id
          [if width = 64 then .wide (literalBits value t) else .literal
            (literalBits value t)]) := by
  refine ⟨fun _ => isLiteral_literalBits h size, fun s value single => ?_, fun _ => whole_trace, ?_⟩
  · rw [constant_integer h single]
    exact ⟨_, _, rfl⟩
  intro s s' r r' u id id' value value' single single' before made after before' made' after'
  have start := State.regular_initial p o
  obtain ⟨tidy, integer⟩ := hasInteger_of_constant h single (before.regular start) made after
  obtain ⟨-, integer'⟩ := hasInteger_of_constant h single' (before'.regular start) made' after'
  obtain ⟨type, form, number⟩ := integer.number tidy
  obtain ⟨_, -, number'⟩ := integer'.number tidy
  refine ⟨?_, number.literal, fun whole => ⟨type, form, ?_⟩⟩
  · rw [← literalBits_eq_iff h size]
    refine ⟨?_, fun same => integer.unique (same ▸ integer')⟩
    rintro rfl
    exact Option.some.inj (number.literal.symm.trans number'.literal)
  · obtain ⟨l, begins⟩ := @State.awaits_start p True (absurd trivial) p.target o
    obtain ⟨_, sound, -⟩ := settled_of_whole begins whole
    have first : type < id := number.hasBits.elim (sound.order.older _ · _ _ rfl rfl)
      (sound.order.older _ · _ _ rfl rfl)
    rw [← literalOperand_integer h size form]
    exact number.words first

/-- In sixteen bits, the integers -1 and 65535 are one, and 1 is another. -/
theorem constant_canonical_twoLengths :
    ∃ s₁ s₂ s₃ id₁ id₂ id₃,
      Ends (constant .twoLengths (typer .twoLengths) (.int (-1)) (.int 16))
      (Program.twoLengths.initial {}) id₁ s₁ ∧
      Ends (constant .twoLengths (typer .twoLengths) (.uint 65535) (.int 16)) s₁ id₂ s₂ ∧
      Ends (constant .twoLengths (typer .twoLengths) (.bool true) (.int 16)) s₂ id₃ s₃ ∧
      id₁ = id₂ ∧ id₂ ≠ id₃ ∧ s₃.builder.literal? id₂ = some 0xFFFFFFFF := by
  have short : (ShaderType.int 16).IsInteger 16 true := ⟨rfl, rfl⟩
  obtain ⟨-, returns, -, canonical⟩ := constant_canonical (p := .twoLengths) {} short (by decide)
  obtain ⟨id₁, s₁, first⟩ := returns (Program.twoLengths.initial {}) (.int (-1)) nofun
  obtain ⟨id₂, s₂, second⟩ := returns s₁ (.uint 65535) nofun
  obtain ⟨id₃, s₃, third⟩ := returns s₂ (.bool true) nofun
  have regular := State.regular_initial .twoLengths {}
  obtain ⟨toFirst, -⟩ := trace_constant short (by simp) regular first
  obtain ⟨toSecond, -⟩ := trace_constant short (by simp) (toFirst.regular regular) second
  obtain ⟨toThird, -⟩ := trace_constant short (by simp) (toSecond.regular (toFirst.regular regular))
    third
  obtain ⟨same, -⟩ := canonical (by simp) (by simp) .refl first (toSecond.trans toThird)
    toFirst second toThird
  obtain ⟨other, known, -⟩ := canonical (by simp) (by simp) toFirst second toThird
    (toFirst.trans toSecond) third .refl
  exact ⟨s₁, s₂, s₃, id₁, id₂, id₃, first, second, third, same.2 rfl, fun equal =>
    absurd (other.1 equal) (by decide), known⟩

end Codegen

end ShaderGen
