import Mathlib.Data.Nat.Log
import ShaderGen.Codegen.Struct
import ShaderGen.Proofs.Layout.Nesting

/-!
# Values in memory do not overlap

`Program.Expands` takes a type apart down to the vectors it is stored as, each at its absolute
offset: it goes by the strides of arrays and matrices and by the offsets of members. The expansion
of a placeable type is tidy (`Expands.tidy`): its vectors follow one another without overlap, inside
the room of the type, each at a multiple of its alignment. All alignments are powers of two, so the
larger of two is a multiple of the smaller, and an offset that is aligned for a whole is aligned for
its parts.
-/

namespace ShaderGen

open List

variable {base : Nat} {t : ShaderType} {m : StructMember} {align : Nat}

/-! ## Powers of two and rounding -/

theorem isPowerOfTwo_dvd_of_le {a b : Nat} (ha : a.isPowerOfTwo) (hb : b.isPowerOfTwo)
    (h : a ≤ b) : a ∣ b := by
  obtain ⟨m, rfl⟩ := ha
  obtain ⟨n, rfl⟩ := hb
  exact Nat.pow_dvd_pow 2 ((Nat.pow_le_pow_iff_right Nat.one_lt_two).mp h)

theorem isPowerOfTwo_max {a b : Nat} (ha : a.isPowerOfTwo) (hb : b.isPowerOfTwo) :
    (max a b).isPowerOfTwo ∧ a ∣ max a b ∧ b ∣ max a b := by
  rcases Nat.le_total a b with h | h
  · rw [Nat.max_eq_right h]
    exact ⟨hb, isPowerOfTwo_dvd_of_le ha hb h, Nat.dvd_refl b⟩
  · rw [Nat.max_eq_left h]
    exact ⟨ha, Nat.dvd_refl a, isPowerOfTwo_dvd_of_le hb ha h⟩

theorem le_roundUp (value align : Nat) : value ≤ roundUp value align := by
  unfold roundUp
  split
  · exact Nat.le_refl value
  · have := Nat.lt_div_mul_add (a := value + align - 1) (b := align) (by omega)
    omega

theorem dvd_roundUp (h : align.isPowerOfTwo) (value : Nat) : align ∣ roundUp value align := by
  unfold roundUp
  split
  · have := Nat.pos_of_isPowerOfTwo h
    obtain rfl : align = 1 := by omega
    exact Nat.one_dvd value
  · exact Nat.dvd_mul_left align _

theorem Packing.outerAlign_spec (k : Packing) (h : align.isPowerOfTwo) :
    (k.outerAlign align).isPowerOfTwo ∧ align ∣ k.outerAlign align := by
  unfold Packing.outerAlign
  split
  · rcases Nat.le_total align 16 with hle | hle
    · have hpos := Nat.pos_of_isPowerOfTwo h
      have : roundUp align 16 = 16 := by
        unfold roundUp
        rw [if_neg (by omega)]
        omega
      rw [this]
      exact ⟨⟨4, rfl⟩, isPowerOfTwo_dvd_of_le h ⟨4, rfl⟩ hle⟩
    · obtain ⟨q, rfl⟩ := isPowerOfTwo_dvd_of_le ⟨4, rfl⟩ h hle
      have : roundUp (16 * q) 16 = 16 * q := by
        unfold roundUp
        rw [if_neg (by omega)]
        omega
      rw [this]
      exact ⟨h, Nat.dvd_refl _⟩
  · exact ⟨h, Nat.dvd_refl align⟩

/-- A vector of at most four scalars of at most eight bytes. -/
structure IsSmallVector (scalar count : Nat) : Prop where
  scalar : scalar ∈ [1, 2, 4, 8]
  count : count ∈ [1, 2, 3, 4]

theorem Packing.vector_align (k : Packing) {scalar count : Nat} (h : IsSmallVector scalar count) :
    (k.vector scalar count).align.isPowerOfTwo ∧ scalar ∣ (k.vector scalar count).align := by
  have power : ∀ a ∈ [1, 2, 4, 8], ∀ n ∈ [1, 2, 4], (a * n).isPowerOfTwo := by decide
  obtain ⟨hs, hc⟩ := h
  have wide : (if count = 3 then scalar * 4 else scalar * max count 1).isPowerOfTwo ∧
      scalar ∣ if count = 3 then scalar * 4 else scalar * max count 1 := by
    split
    · exact ⟨power scalar hs 4 (by decide), Nat.dvd_mul_right scalar 4⟩
    · next hne =>
      have hmax : max count 1 ∈ [1, 2, 4] := by
        simp only [mem_cons, not_mem_nil, or_false] at hc ⊢
        omega
      exact ⟨power scalar hs _ hmax, Nat.dvd_mul_right scalar _⟩
  unfold Packing.vector
  split
  · exact ⟨by simpa using power scalar hs 1 (by decide), Nat.dvd_refl scalar⟩
  · exact wide

/-! ## Expansion -/

/-- A vector in memory: `count` scalars of `scalar` bytes each, from the byte `start` on. A scalar
is a vector of one, and a matrix is stored as its columns or rows. -/
structure Line where
  start : Nat
  scalar : Nat
  count : Nat
  deriving DecidableEq

/-- The byte after a vector. -/
def Line.last (l : Line) : Nat := l.start + l.scalar * l.count

/-- A run of bytes. -/
structure ByteRange where
  start : Nat
  size : Nat
  deriving DecidableEq

/-- Two runs of bytes have no byte in common. -/
def ByteRange.Apart (r q : ByteRange) : Prop :=
  r.start + r.size ≤ q.start ∨ q.start + q.size ≤ r.start

/-- The bytes of each scalar of a vector. -/
def Line.scalars (l : Line) : List ByteRange :=
  (range l.count).map fun i => { start := l.start + i * l.scalar, size := l.scalar }

namespace Program

variable {p : Program} {k : Packing} {size : Nat} {s : StructDecl}

/-- The vectors that a value of a type is stored as, when the value starts at the byte `base`.
`Expands p k rowMajor t base lines` goes by the offsets, strides and sizes that the layout rules
give at each level. -/
inductive Expands (p : Program) (k : Packing) : Bool → ShaderType → Nat → List Line → Prop
  | vector {rowMajor : Bool} {t : ShaderType} {base : Nat} (arrays : t.arrays = [])
      (cols : t.matrixCols = 0) (notStruct : t.structId? = none) :
      Expands p k rowMajor t base [⟨base, t.scalarBytes, t.componentCount⟩]
  | matrix {rowMajor : Bool} {t : ShaderType} {base : Nat} (arrays : t.arrays = [])
      (cols : 0 < t.matrixCols) :
      Expands p k rowMajor t base
        ((range (Packing.lines rowMajor t.matrixCols t.matrixRows).2).map fun i =>
          ⟨base + i * t.matrixStride k rowMajor, t.scalarBytes,
            (Packing.lines rowMajor t.matrixCols t.matrixRows).1⟩)
  | array {rowMajor : Bool} {t : ShaderType} {base : Nat} {size : ArraySize}
      {rest : List ArraySize} {parts : Nat → List Line} (arrays : t.arrays = size :: rest)
      (elements : ∀ i < p.arrayLength size,
        Expands p k rowMajor t.elementType (base + i * p.arrayStride k t rowMajor) (parts i)) :
      Expands p k rowMajor t base ((range (p.arrayLength size)).flatMap parts)
  | struct {rowMajor : Bool} {t : ShaderType} {base : Nat} {id : StructId} {s : StructDecl}
      {offset : Nat → Nat} {parts : Nat → List Line} (arrays : t.arrays = [])
      (cols : t.matrixCols = 0) (isStruct : t.structId? = some id)
      (declared : p.struct? id = some s)
      (offsets : ∀ m ∈ p.presentMembers s,
        (p.structLayout k s rowMajor).offsets[m.2]? = some (offset m.2))
      (members : ∀ m ∈ p.presentMembers s,
        Expands p k (m.1.type.isRowMajor rowMajor) m.1.type (base + offset m.2) (parts m.2)) :
      Expands p k rowMajor t base ((p.presentMembers s).flatMap fun m => parts m.2)

/-! ## The room of a type -/

theorem footprint_array {size : ArraySize} {rest : List ArraySize} (h : t.arrays = size :: rest)
    (rowMajor : Bool) : p.footprint k t rowMajor =
      { size := p.arrayStride k t rowMajor * p.arrayLength size
        align := k.outerAlign (p.footprint k t.elementType rowMajor).align } := by
  unfold footprint arrayStride shape
  rw [shapeWithin_array h]
  rfl

theorem footprint_vector (h : t.arrays = []) (hc : t.matrixCols = 0) (hb : t.basic.IsScalar)
    (rowMajor : Bool) : p.footprint k t rowMajor = k.vector t.scalarBytes t.componentCount := by
  unfold footprint shape
  rw [shapeWithin_vector h hc hb]
  rfl

theorem footprint_matrix (h : t.arrays = []) (hc : 0 < t.matrixCols) (rowMajor : Bool) :
    p.footprint k t rowMajor =
      { size := t.matrixStride k rowMajor * (Packing.lines rowMajor t.matrixCols t.matrixRows).2
        align := k.outerAlign (k.vector t.scalarBytes
          (Packing.lines rowMajor t.matrixCols t.matrixRows).1).align } := by
  unfold footprint shape
  rw [shapeWithin_matrix h hc]
  simp only [ShaderType.matrixStride, ShaderType.matrix?, hc, ↓reduceIte, Option.getD_some]
  rfl

theorem scalarBytes_mem (h : t.basic.IsScalar) : t.scalarBytes ∈ [1, 2, 4, 8] := by
  unfold ShaderType.scalarBytes ShaderType.bitWidth
  cases hb : t.basic <;> simp [hb, BasicType.IsScalar] at h ⊢ <;> omega

/-! ## Placing members -/

/-- The room a member takes. -/
def memberRoom (p : Program) (k : Packing) (rowMajor : Bool) (m : StructMember) : Footprint :=
  p.footprint k m.type (m.type.isRowMajor rowMajor)

/-- The alignment of a member: that of its type, or the one it asks for if that is larger. -/
def memberAlign (p : Program) (k : Packing) (rowMajor : Bool) (m : StructMember) : Nat :=
  max (p.memberRoom k rowMajor m).align (m.type.qualifier.layout.align.getD 0)

/-- What holds of the offsets, the end and the alignment that placing members from `start` on
gives. -/
structure Placed (p : Program) (k : Packing) (rowMajor : Bool) (members : List StructMember)
    (start align : Nat) (offsets : List Nat) (last most : Nat) : Prop where
  start_le : start ≤ last
  power : most.isPowerOfTwo
  dvd : align ∣ most
  offset : ∀ (i : Nat) m, members[i]? = some m → p.hasMember m = true →
    ∃ off, offsets[i]? = some off ∧ start ≤ off ∧ off + (p.memberRoom k rowMajor m).size ≤ last ∧
    p.memberAlign k rowMajor m ∣ off ∧ p.memberAlign k rowMajor m ∣ most
  inOrder : ∀ (i j : Nat) m m' off off', i < j → members[i]? = some m → p.hasMember m = true →
    members[j]? = some m' → p.hasMember m' = true → offsets[i]? = some off →
    offsets[j]? = some off' → off + (p.memberRoom k rowMajor m).size ≤ off'

theorem place_absent (absent : p.hasMember m = false) (rest : List StructMember) (rowMajor : Bool)
    (start align : Nat) : (p.membersOf p.shape (m :: rest)).place k rowMajor start align =
      let r := (p.membersOf p.shape rest).place k rowMajor start align
      (start :: r.1, r.2.1, r.2.2) := by
  simp only [membersOf, foldr_cons, absent, Bool.false_eq_true, ↓reduceIte, Members.place]

theorem place_present (present : p.hasMember m = true) (asks : m.AsksLittle)
    (rest : List StructMember) (rowMajor : Bool) (start align : Nat) :
    (p.membersOf p.shape (m :: rest)).place k rowMajor start align =
      let offset := roundUp start (p.memberAlign k rowMajor m)
      let r := (p.membersOf p.shape rest).place k rowMajor
        (offset + (p.memberRoom k rowMajor m).size) (max align (p.memberAlign k rowMajor m))
      (offset :: r.1, r.2.1, r.2.2) := by
  simp only [membersOf, foldr_cons, present, ↓reduceIte, Members.place, asks.offset,
    Option.getD_none]
  rfl

theorem placed (rowMajor : Bool) (members : List StructMember)
    (asks : ∀ m ∈ members, p.hasMember m = true → m.AsksLittle)
    (power : ∀ m ∈ members, p.hasMember m = true → (p.memberAlign k rowMajor m).isPowerOfTwo) :
    ∀ start align, align.isPowerOfTwo →
      let r := (p.membersOf p.shape members).place k rowMajor start align
      Placed p k rowMajor members start align r.1 r.2.1 r.2.2 := by
  induction members with
  | nil =>
    intro start align halign
    exact ⟨Nat.le_refl start, halign, Nat.dvd_refl align, by simp, by simp⟩
  | cons m rest ih =>
    intro start align halign
    have ih := ih (fun m' hm' => asks m' (mem_cons_of_mem m hm'))
      (fun m' hm' => power m' (mem_cons_of_mem m hm'))
    cases present : p.hasMember m with
    | false =>
      rw [place_absent present]
      have hrest := ih start align halign
      refine ⟨hrest.start_le, hrest.power, hrest.dvd, ?_, ?_⟩
      · intro i m' hi present'
        cases i with
        | zero => simp_all
        | succ i => simpa using hrest.offset i m' (by simpa using hi) present'
      · intro i j m' m'' off off' hij hi present' hj present'' hoff hoff'
        cases i with
        | zero => simp_all
        | succ i =>
          cases j with
          | zero => omega
          | succ j =>
            exact hrest.inOrder i j m' m'' off off' (by omega) (by simpa using hi) present'
              (by simpa using hj) present'' (by simpa using hoff) (by simpa using hoff')
    | true =>
      rw [place_present present (asks m mem_cons_self present)]
      have hm := power m mem_cons_self present
      obtain ⟨hmax, halign', hm'⟩ := isPowerOfTwo_max halign hm
      have hrest := ih (roundUp start (p.memberAlign k rowMajor m) +
        (p.memberRoom k rowMajor m).size) _ hmax
      have hup := le_roundUp start (p.memberAlign k rowMajor m)
      have hlast := hrest.start_le
      refine ⟨Nat.le_trans hup (Nat.le_of_add_right_le hlast), hrest.power,
        Nat.dvd_trans halign' hrest.dvd, ?_, ?_⟩
      · intro i m' hi present'
        cases i with
        | zero =>
          obtain rfl : m = m' := by simpa using hi
          exact ⟨_, rfl, hup, hlast, dvd_roundUp hm start, Nat.dvd_trans hm' hrest.dvd⟩
        | succ i =>
          obtain ⟨off, hoff, hstart, hend, haligned⟩ :=
            hrest.offset i m' (by simpa using hi) present'
          exact ⟨off, by simpa using hoff, by omega, hend, haligned⟩
      · intro i j m' m'' off off' hij hi present' hj present'' hoff hoff'
        cases j with
        | zero => omega
        | succ j =>
          cases i with
          | zero =>
            obtain rfl : m = m' := by simpa using hi
            obtain rfl : roundUp start (p.memberAlign k rowMajor m) = off := by simpa using hoff
            obtain ⟨off'', hoff'', hstart, -⟩ :=
              hrest.offset j m'' (by simpa using hj) present''
            obtain rfl : off'' = off' := by simpa [hoff''] using hoff'
            exact hstart
          | succ i =>
            exact hrest.inOrder i j m' m'' off off' (by omega) (by simpa using hi) present'
              (by simpa using hj) present'' (by simpa using hoff) (by simpa using hoff')

theorem structLayout_offsets (s : StructDecl) (rowMajor : Bool) :
    (p.structLayout k s rowMajor).offsets =
      ((p.membersOf p.shape s.members).place k rowMajor 0 1).1 := rfl

theorem structLayout_whole (s : StructDecl) (rowMajor : Bool) :
    let r := (p.membersOf p.shape s.members).place k rowMajor 0 1
    (p.structLayout k s rowMajor).whole =
      { size := roundUp r.2.1 (k.outerAlign r.2.2), align := k.outerAlign r.2.2 } := by
  simp only [structLayout, Members.layout, Shape.footprint]

theorem memberAlign_spec {rowMajor : Bool} (asks : m.AsksLittle)
    (h : (p.memberRoom k rowMajor m).align.isPowerOfTwo) :
    (p.memberAlign k rowMajor m).isPowerOfTwo ∧
      (p.memberRoom k rowMajor m).align ∣ p.memberAlign k rowMajor m := by
  unfold memberAlign
  cases hask : m.type.qualifier.layout.align with
  | none => simpa using h
  | some a =>
    obtain ⟨hpower, hdvd, -⟩ := isPowerOfTwo_max h (asks.align a (by simp [hask]))
    exact ⟨hpower, hdvd⟩

/-! ## Tidy expansions -/

/-- The vectors lie in the `size` bytes from `base` on, one after the other, and each is aligned. -/
structure Tidy (k : Packing) (base size : Nat) (lines : List Line) : Prop where
  inside : ∀ l ∈ lines, base ≤ l.start ∧ l.last ≤ base + size
  inOrder : lines.Pairwise fun l l' => l.last ≤ l'.start
  aligned : ∀ l ∈ lines, (k.vector l.scalar l.count).align ∣ l.start
  small : ∀ l ∈ lines, IsSmallVector l.scalar l.count

namespace Tidy

/-- Parts that are tidy each in a room of its own, and whose rooms follow one another, are tidy
together. -/
theorem flatMap {ι : Type} {xs : List ι} {parts : ι → List Line} (first room : ι → Nat)
    (each : ∀ x ∈ xs, Tidy k (first x) (room x) (parts x))
    (inside : ∀ x ∈ xs, base ≤ first x ∧ first x + room x ≤ base + size)
    (inOrder : xs.Pairwise fun x y => first x + room x ≤ first y) :
    Tidy k base size (xs.flatMap parts) := by
  refine ⟨?_, ?_, ?_, ?_⟩
  · intro l hl
    obtain ⟨x, hx, hl⟩ := mem_flatMap.mp hl
    have := (each x hx).inside l hl
    have := inside x hx
    omega
  · rw [pairwise_flatMap]
    refine ⟨fun x hx => (each x hx).inOrder, inOrder.imp_of_mem ?_⟩
    intro x y hx hy hxy l hl l' hl'
    have := (each x hx).inside l hl
    have := (each y hy).inside l' hl'
    omega
  · intro l hl
    obtain ⟨x, hx, hl⟩ := mem_flatMap.mp hl
    exact (each x hx).aligned l hl
  · intro l hl
    obtain ⟨x, hx, hl⟩ := mem_flatMap.mp hl
    exact (each x hx).small l hl

theorem spaced {n stride room : Nat} {parts : Nat → List Line} (fits : room ≤ stride)
    (each : ∀ i < n, Tidy k (base + i * stride) room (parts i)) :
    Tidy k base (stride * n) ((range n).flatMap parts) := by
  have next : ∀ i j, i < j → i * stride + room ≤ j * stride := by
    intro i j hij
    have := Nat.mul_le_mul_right stride hij
    rw [Nat.succ_mul] at this
    omega
  refine flatMap (fun i => base + i * stride) (fun _ => room)
    (fun i hi => each i (mem_range.mp hi)) ?_ (pairwise_lt_range.imp ?_)
  · intro i hi
    have := next i n (mem_range.mp hi)
    rw [Nat.mul_comm stride n]
    omega
  · intro i j hij
    have := next i j hij
    omega

theorem singleton {start scalar count : Nat} (small : IsSmallVector scalar count)
    (aligned : (k.vector scalar count).align ∣ start) :
    Tidy k start (k.vector scalar count).size [⟨start, scalar, count⟩] := by
  refine ⟨?_, pairwise_singleton _ _, ?_, ?_⟩ <;> intro l hl <;>
    obtain rfl := mem_singleton.mp hl
  · exact ⟨Nat.le_refl start, Nat.le_refl _⟩
  · exact aligned
  · exact small

end Tidy

/-! ## Placeable types are tidy -/

theorem mem_presentMembers {m : StructMember × Nat} :
    m ∈ p.presentMembers s ↔ s.members[m.2]? = some m.1 ∧ p.hasMember m.1 = true := by
  simp [presentMembers, mem_zipIdx_iff_getElem?]

theorem presentMembers_inOrder (s : StructDecl) :
    (p.presentMembers s).Pairwise fun m m' => m.2 < m'.2 := by
  apply List.Pairwise.filter
  rw [pairwise_iff_getElem]
  intro i j hi hj hij
  simpa using hij

namespace Placeable

theorem isSmallVector (basic : t.basic.IsScalar) (size : t.vectorSize ≤ 4) :
    IsSmallVector t.scalarBytes t.componentCount := by
  refine ⟨scalarBytes_mem basic, ?_⟩
  unfold ShaderType.componentCount
  split
  · simp only [mem_cons, not_mem_nil, or_false]
    omega
  · exact mem_cons_self

theorem isSmallVector_line (basic : t.basic.IsScalar) (cols : 2 ≤ t.matrixCols ∧ t.matrixCols ≤ 4)
    (rows : 2 ≤ t.matrixRows ∧ t.matrixRows ≤ 4) (rowMajor : Bool) :
    IsSmallVector t.scalarBytes (Packing.lines rowMajor t.matrixCols t.matrixRows).1 := by
  refine ⟨scalarBytes_mem basic, ?_⟩
  cases rowMajor <;> simp [Packing.lines] <;> omega

theorem align_isPowerOfTwo (h : Placeable p t) :
    ∀ rowMajor, (p.footprint k t rowMajor).align.isPowerOfTwo := by
  induction h with
  | vector arrays cols size basic =>
    intro rowMajor
    rw [footprint_vector arrays cols basic]
    exact (k.vector_align (isSmallVector basic size)).1
  | matrix arrays cols rows basic =>
    intro rowMajor
    rw [footprint_matrix arrays (by omega)]
    exact (k.outerAlign_spec (k.vector_align (isSmallVector_line basic cols rows rowMajor)).1).1
  | array arrays _ ih =>
    intro rowMajor
    rw [footprint_array arrays]
    exact (k.outerAlign_spec (ih rowMajor)).1
  | struct arrays cols isStruct declared members asks ih =>
    intro rowMajor
    rw [footprint_struct (.struct arrays cols isStruct declared members asks) arrays cols isStruct
      declared, structLayout_whole]
    exact (k.outerAlign_spec (placed rowMajor _ asks (fun m hm present =>
      (memberAlign_spec (asks m hm present) (ih m hm present _)).1) 0 1 ⟨0, rfl⟩).power).1

theorem placed_struct {id : StructId} (h : Placeable p t) (arrays : t.arrays = [])
    (isStruct : t.structId? = some id) (declared : p.struct? id = some s) (k : Packing)
    (rowMajor : Bool) : let r := (p.membersOf p.shape s.members).place k rowMajor 0 1
    Placed p k rowMajor s.members 0 1 r.1 r.2.1 r.2.2 := by
  cases h with
  | vector _ _ _ basic | matrix _ _ _ basic => simp [structId?_eq_none basic] at isStruct
  | array arrays' => simp [arrays] at arrays'
  | struct _ _ isStruct' declared' members asks =>
    obtain rfl : id = _ := by simpa [isStruct] using isStruct'
    obtain rfl : s = _ := by simpa [declared] using declared'
    exact placed rowMajor s.members asks (fun m hm present =>
      (memberAlign_spec (asks m hm present) ((members m hm present).align_isPowerOfTwo _)).1)
      0 1 ⟨0, rfl⟩

theorem expands (h : Placeable p t) (k : Packing) :
    ∀ rowMajor base, ∃ lines, p.Expands k rowMajor t base lines := by
  induction h with
  | vector arrays cols _ basic =>
    exact fun _ _ => ⟨_, .vector arrays cols (structId?_eq_none basic)⟩
  | matrix arrays cols => exact fun _ _ => ⟨_, .matrix arrays (by omega)⟩
  | @array t _ _ arrays _ ih =>
    intro rowMajor base
    choose parts hparts using fun i => ih rowMajor (base + i * p.arrayStride k t rowMajor)
    exact ⟨_, .array arrays fun i _ => hparts i⟩
  | @struct t id s arrays cols isStruct declared members asks ih =>
    intro rowMajor base
    have hplaced := placed_struct (.struct arrays cols isStruct declared members asks) arrays
      isStruct declared k rowMajor
    have each : ∀ i : Nat, ∃ off lines, ∀ m, s.members[i]? = some m → p.hasMember m = true →
        (p.structLayout k s rowMajor).offsets[i]? = some off ∧
        p.Expands k (m.type.isRowMajor rowMajor) m.type (base + off) lines := by
      intro i
      by_cases hi : ∃ m, s.members[i]? = some m ∧ p.hasMember m = true
      · obtain ⟨m, hm, present⟩ := hi
        obtain ⟨off, hoff, -⟩ := hplaced.offset i m hm present
        obtain ⟨lines, hlines⟩ := ih m (mem_of_getElem? hm) present
          (m.type.isRowMajor rowMajor) (base + off)
        refine ⟨off, lines, fun m' hm' _ => ?_⟩
        obtain rfl : m = m' := by simpa [hm] using hm'
        exact ⟨hoff, hlines⟩
      · exact ⟨0, [], fun m hm present => (hi ⟨m, hm, present⟩).elim⟩
    choose offset parts hparts using each
    exact ⟨_, .struct arrays cols isStruct declared
      (fun m hm => (hparts m.2 m.1 (mem_presentMembers.mp hm).1 (mem_presentMembers.mp hm).2).1)
      (fun m hm => (hparts m.2 m.1 (mem_presentMembers.mp hm).1 (mem_presentMembers.mp hm).2).2)⟩

theorem tidy (h : Placeable p t) : ∀ rowMajor base lines, (p.footprint k t rowMajor).align ∣ base →
      p.Expands k rowMajor t base lines → Tidy k base (p.footprint k t rowMajor).size lines := by
  induction h with
  | vector arrays cols size basic =>
    intro rowMajor base lines haligned he
    rw [footprint_vector arrays cols basic] at haligned ⊢
    cases he with
    | vector => exact .singleton (isSmallVector basic size) haligned
    | matrix _ cols' => omega
    | array arrays' => simp [arrays] at arrays'
    | struct _ _ isStruct => simp [structId?_eq_none basic] at isStruct
  | @matrix t arrays cols rows basic =>
    intro rowMajor base lines haligned he
    rw [footprint_matrix arrays (by omega)] at haligned ⊢
    have small := isSmallVector_line basic cols rows rowMajor
    obtain ⟨hpower, hinner⟩ := k.outerAlign_spec (k.vector_align small).1
    have hstride : t.matrixStride k rowMajor = k.stride (k.vector t.scalarBytes
        (Packing.lines rowMajor t.matrixCols t.matrixRows).1) := by
      have hpos : 0 < t.matrixCols := by omega
      simp [ShaderType.matrixStride, ShaderType.matrix?, hpos, Packing.matrixStride]
    cases he with
    | vector _ cols' => omega
    | matrix =>
      rw [map_eq_flatMap]
      refine .spaced (by rw [hstride]; exact le_roundUp _ _) fun i _ => .singleton small ?_
      refine Nat.dvd_add (Nat.dvd_trans hinner haligned) (Nat.dvd_mul_left_of_dvd ?_ i)
      rw [hstride]
      exact Nat.dvd_trans hinner (dvd_roundUp hpower _)
    | array arrays' => simp [arrays] at arrays'
    | struct _ cols' => omega
  | @array t _ _ arrays element ih =>
    intro rowMajor base lines haligned he
    rw [footprint_array arrays] at haligned ⊢
    obtain ⟨hpower, hinner⟩ := k.outerAlign_spec (element.align_isPowerOfTwo (k := k) rowMajor)
    cases he with
    | vector arrays' => simp [arrays] at arrays'
    | matrix arrays' => simp [arrays] at arrays'
    | array arrays' elements =>
      obtain ⟨rfl, rfl⟩ := cons.inj (arrays ▸ arrays')
      refine .spaced (le_roundUp _ _) fun i hi => ih rowMajor _ _ ?_ (elements i hi)
      refine Nat.dvd_add (Nat.dvd_trans hinner haligned) (Nat.dvd_mul_left_of_dvd ?_ i)
      exact Nat.dvd_trans hinner (dvd_roundUp hpower _)
    | struct arrays' => simp [arrays] at arrays'
  | @struct t id s arrays cols isStruct declared members asks ih =>
    intro rowMajor base lines haligned he
    have h : Placeable p t := .struct arrays cols isStruct declared members asks
    have hplaced := h.placed_struct arrays isStruct declared k rowMajor
    rw [h.footprint_struct arrays cols isStruct declared, structLayout_whole] at haligned ⊢
    dsimp only at haligned ⊢
    obtain ⟨-, hmost⟩ := k.outerAlign_spec hplaced.power
    cases he with
    | vector _ _ notStruct => simp [isStruct] at notStruct
    | matrix _ cols' => omega
    | array arrays' => simp [arrays] at arrays'
    | @struct _ _ _ id' s' offset parts _ _ isStruct' declared' offsets expansions =>
      obtain rfl : id = id' := by simpa [isStruct] using isStruct'
      obtain rfl : s = s' := by simpa [declared] using declared'
      have at_offset : ∀ m ∈ p.presentMembers s, offset m.2 + (p.memberRoom k rowMajor m.1).size ≤
            ((p.membersOf p.shape s.members).place k rowMajor 0 1).2.1 ∧
          p.memberAlign k rowMajor m.1 ∣ base + offset m.2 := by
        intro m hm
        obtain ⟨hi, present⟩ := mem_presentMembers.mp hm
        obtain ⟨off, hoff, -, hend, hdvd, hdvd'⟩ := hplaced.offset m.2 m.1 hi present
        obtain rfl : off = offset m.2 := by
          have := offsets m hm
          rw [structLayout_offsets, hoff] at this
          exact Option.some.inj this
        exact ⟨hend, Nat.dvd_add (Nat.dvd_trans hdvd' (Nat.dvd_trans hmost haligned)) hdvd⟩
      refine Tidy.flatMap (fun m => base + offset m.2) (fun m => (p.memberRoom k rowMajor m.1).size)
        ?_ ?_ ((presentMembers_inOrder s).imp_of_mem ?_)
      · intro m hm
        obtain ⟨hi, present⟩ := mem_presentMembers.mp hm
        refine ih m.1 (mem_of_getElem? hi) present _ _ _ ?_ (expansions m hm)
        refine Nat.dvd_trans ?_ (at_offset m hm).2
        have hmem := mem_of_getElem? hi
        exact (memberAlign_spec (asks m.1 hmem present)
          ((members m.1 hmem present).align_isPowerOfTwo _)).2
      · intro m hm
        have := (at_offset m hm).1
        have := le_roundUp ((p.membersOf p.shape s.members).place k rowMajor 0 1).2.1
          (k.outerAlign ((p.membersOf p.shape s.members).place k rowMajor 0 1).2.2)
        omega
      · intro m m' hm hm' hlt
        obtain ⟨hi, present⟩ := mem_presentMembers.mp hm
        obtain ⟨hj, present'⟩ := mem_presentMembers.mp hm'
        have := hplaced.inOrder m.2 m'.2 m.1 m'.1 _ _ hlt hi present hj present' (offsets m hm)
          (offsets m' hm')
        omega

end Placeable

/-! ## Scalars -/

theorem mem_scalars {l : Line} {r : ByteRange} (h : r ∈ l.scalars) :
    r.size = l.scalar ∧ l.start ≤ r.start ∧ r.start + r.size ≤ l.last ∧
      ∃ i, r.start = l.start + i * l.scalar := by
  obtain ⟨i, hi, rfl⟩ := mem_map.mp h
  have hlast := Nat.mul_le_mul_right l.scalar (mem_range.mp hi)
  rw [Nat.succ_mul, Nat.mul_comm l.count] at hlast
  refine ⟨rfl, Nat.le_add_right _ _, ?_, i, rfl⟩
  simp only [Line.last]
  omega

theorem Tidy.scalars_apart {lines : List Line} (h : Tidy k base size lines) :
    (lines.flatMap Line.scalars).Pairwise ByteRange.Apart := by
  rw [pairwise_flatMap]
  refine ⟨fun l _ => ?_, h.inOrder.imp ?_⟩
  · refine List.Pairwise.map _ ?_ pairwise_lt_range
    intro i j hij
    have := Nat.mul_le_mul_right l.scalar hij
    rw [Nat.succ_mul] at this
    exact .inl (by dsimp only; omega)
  · intro l l' hll r hr q hq
    obtain ⟨-, -, hend, -⟩ := mem_scalars hr
    obtain ⟨-, hstart, -, -⟩ := mem_scalars hq
    exact .inl (by omega)

theorem vector_one_align (k : Packing) (scalar : Nat) : (k.vector scalar 1).align = scalar := by
  cases k <;> simp [Packing.vector]

/-- A structure type whose layout keeps its scalars apart, inside and aligned. -/
structure SoundLayout (p : Program) (k : Packing) (rowMajor : Bool) (t : ShaderType)
    (s : StructDecl) : Prop where
  /-- The type can be taken apart down to its scalars. -/
  expands : ∃ lines, p.Expands k rowMajor t 0 lines
  apart : ∀ lines, p.Expands k rowMajor t 0 lines →
    (lines.flatMap Line.scalars).Pairwise ByteRange.Apart
  inside : ∀ lines, p.Expands k rowMajor t 0 lines → ∀ r ∈ lines.flatMap Line.scalars,
    r.start + r.size ≤ (p.structLayout k s rowMajor).whole.size
  /-- Scalars, vectors, and the columns or rows of matrices start at multiples of their
  alignments. -/
  vectorsAligned : ∀ lines, p.Expands k rowMajor t 0 lines → ∀ l ∈ lines,
    (k.vector l.scalar l.count).align ∣ l.start
  scalarsAligned : ∀ lines, p.Expands k rowMajor t 0 lines → ∀ r ∈ lines.flatMap Line.scalars,
    (k.vector r.size 1).align ∣ r.start
  wholeAligned :
    (p.structLayout k s rowMajor).whole.align ∣ (p.structLayout k s rowMajor).whole.size
  /-- A member starts where an earlier one has ended, or later. -/
  inOrder : ∀ (i j : Nat) m m', i < j → s.members[i]? = some m → p.hasMember m = true →
    s.members[j]? = some m' → p.hasMember m' = true →
    ∃ off off', (p.structLayout k s rowMajor).offsets[i]? = some off ∧
      (p.structLayout k s rowMajor).offsets[j]? = some off' ∧
      off + (p.footprint k m.type (m.type.isRowMajor rowMajor)).size ≤ off'

/-- Under every packing and majorness, a structure that is placeable is laid out soundly. -/
theorem soundLayout_of_placeable {t : ShaderType} {id : StructId} {s : StructDecl}
    (h : Placeable p t) (arrays : t.arrays = []) (isStruct : t.structId? = some id)
    (declared : p.struct? id = some s) (k : Packing) (rowMajor : Bool) :
    SoundLayout p k rowMajor t s := by
  have cols : t.matrixCols = 0 := by
    cases h with
    | vector _ cols => exact cols
    | matrix _ _ _ basic => simp [structId?_eq_none basic] at isStruct
    | array arrays' => simp [arrays] at arrays'
    | struct _ cols => exact cols
  have hplaced := h.placed_struct arrays isStruct declared k rowMajor
  have hwhole := h.footprint_struct arrays cols isStruct declared k rowMajor
  have tidy : ∀ lines, p.Expands k rowMajor t 0 lines →
      Tidy k 0 (p.structLayout k s rowMajor).whole.size lines := by
    intro lines he
    rw [← hwhole]
    exact h.tidy rowMajor 0 lines (Nat.dvd_zero _) he
  refine ⟨h.expands k rowMajor 0, fun lines he => (tidy lines he).scalars_apart, ?_,
    fun lines he => (tidy lines he).aligned, ?_, ?_, ?_⟩
  · intro lines he r hr
    obtain ⟨l, hl, hr⟩ := mem_flatMap.mp hr
    obtain ⟨-, -, hend, -⟩ := mem_scalars hr
    have := ((tidy lines he).inside l hl).2
    omega
  · intro lines he r hr
    obtain ⟨l, hl, hr⟩ := mem_flatMap.mp hr
    obtain ⟨hsize, -, -, i, hi⟩ := mem_scalars hr
    have hscalar := (k.vector_align ((tidy lines he).small l hl)).2
    rw [vector_one_align, hsize, hi]
    exact Nat.dvd_add (Nat.dvd_trans hscalar ((tidy lines he).aligned l hl))
      (Nat.dvd_mul_left _ _)
  · rw [structLayout_whole]
    exact dvd_roundUp (k.outerAlign_spec hplaced.power).1 _
  · intro i j m m' hij hi present hj present'
    obtain ⟨off, hoff, -⟩ := hplaced.offset i m hi present
    obtain ⟨off', hoff', -⟩ := hplaced.offset j m' hj present'
    exact ⟨off, off', hoff, hoff', hplaced.inOrder i j m m' off off' hij hi present hj present'
      hoff hoff'⟩

/-- A structure with a truth value, matrices stored by rows, an array of structures and a member
that asks for an alignment. -/
theorem soundLayout_of_placeable_nested :
    let inner : StructDecl :=
      { name := "Inner"
        members := [{ name := "direction", type := (ShaderType.float 32).vector 3 },
          { name := "weight", type := .float 16 }] }
    let outer : StructDecl :=
      { name := "Outer"
        members := [{ name := "flag", type := .bool },
          { name := "turns", type := { (ShaderType.float 32).matrixOf 2 3 with
            arrays := [.sized 2] } },
          { name := "samples", type := { basic := .struct 0, arrays := [.sized 3] } },
          { name := "count", type := { (ShaderType.uint 64) with
            qualifier := { layout := { align := some 32 } } } }] }
    let p : Program := { structs := [inner, outer] }
    Placeable p { basic := .struct 1 } ∧
      SoundLayout p .std140 true { basic := .struct 1 } outer := by
  intro inner outer p
  have asks : ∀ s ∈ p.structs, ∀ m ∈ s.members, m.AsksLittle := by
    simp only [p, inner, outer, forall_mem_cons, not_mem_nil, false_implies, implies_true, and_true]
    refine ⟨⟨?_, ?_⟩, ?_, ?_, ?_, ?_⟩ <;> refine ⟨rfl, ?_⟩ <;> decide
  have inside : Placeable p { basic := .struct 0 } := by
    refine .struct rfl rfl rfl rfl ?_ fun m hm _ => asks inner (by simp [p]) m hm
    simp only [inner, forall_mem_cons, not_mem_nil, false_implies, implies_true, and_true]
    exact ⟨fun _ => .vector rfl rfl (by decide) (by decide),
      fun _ => .vector rfl rfl (by decide) (by decide)⟩
  have whole : Placeable p { basic := .struct 1 } := by
    refine .struct rfl rfl rfl rfl ?_ fun m hm _ => asks outer (by simp [p]) m hm
    simp only [outer, forall_mem_cons, not_mem_nil, false_implies, implies_true, and_true]
    exact ⟨fun _ => .vector rfl rfl (by decide) (by decide),
      fun _ => .array rfl (.matrix rfl (by decide) (by decide) (by decide)),
      fun _ => .array rfl inside, fun _ => .vector rfl rfl (by decide) (by decide)⟩
  exact ⟨whole, soundLayout_of_placeable whole rfl rfl rfl .std140 true⟩

end Program

end ShaderGen
