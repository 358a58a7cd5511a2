/-!
# Binary floating-point formats

Bit patterns of the binary interchange formats, handled as natural numbers. A finite magnitude is
`m * 2 ^ k`; `Format.round` gives the bit pattern of the nearest representable magnitude, a tie
going to the even neighbour, and magnitudes past the largest finite one becoming infinity. A
conversion decodes a pattern and rounds again. `ofDouble` narrows one format at a time, so a number
of sixteen bits has been rounded twice.
-/

namespace ShaderGen.Binary

/-- A format by the widths of its fields; one sign bit stands above them. -/
structure Format where
  exponentBits : Nat
  fractionBits : Nat
  deriving DecidableEq

def half : Format := ⟨5, 10⟩

def single : Format := ⟨8, 23⟩

def double : Format := ⟨11, 52⟩

/-- `m * 2 ^ shift` rounded to an integer, a tie going to the even neighbour. -/
def scaleRound (m : Nat) (shift : Int) : Nat :=
  match shift with
  | .ofNat n => m * Nat.pow 2 n
  | .negSucc n =>
    let unit := Nat.pow 2 (n + 1)
    let quotient := m / unit
    let twice := 2 * (m % unit)
    if twice < unit then quotient
    else if unit < twice then quotient + 1
    else quotient + quotient % 2

namespace Format

/-- The exponent that the field value zero, and also one, stands for. -/
def minExponent (f : Format) : Int :=
  2 - Int.ofNat (Nat.pow 2 (f.exponentBits - 1))

/-- The weight of the last fraction bit of the smallest numbers, as an exponent of two. -/
def minUnit (f : Format) : Int :=
  f.minExponent - f.fractionBits

def infinity (f : Format) : Nat :=
  (Nat.pow 2 f.exponentBits - 1) * Nat.pow 2 f.fractionBits

def signBit (f : Format) : Nat :=
  Nat.pow 2 (f.exponentBits + f.fractionBits)

/-- The pattern of the magnitude nearest to `m * 2 ^ k`. Counting patterns upward from zero steps
through the representable magnitudes in order, so the rounded multiple of the unit in the last
place and the exponent field just add up. -/
def round (f : Format) (m : Nat) (k : Int) : Nat :=
  if m = 0 then 0
  else
    let unit := max ((m.log2 : Int) + k - f.fractionBits) f.minUnit
    let multiple := scaleRound m (k - unit)
    min (multiple + (unit - f.minUnit).toNat * Nat.pow 2 f.fractionBits) f.infinity

def ofInt (f : Format) (i : Int) : Nat :=
  (if i < 0 then f.signBit else 0) + f.round i.natAbs 0

end Format

inductive Datum
  | finite (negative : Bool) (m : Nat) (k : Int)
  | infinite (negative : Bool)
  | nan (negative : Bool) (payload : Nat)
  deriving DecidableEq

def Format.decode (f : Format) (bits : Nat) : Datum :=
  let fraction := bits % Nat.pow 2 f.fractionBits
  let field := bits / Nat.pow 2 f.fractionBits % Nat.pow 2 f.exponentBits
  let negative := bits / f.signBit % 2 == 1
  if field = Nat.pow 2 f.exponentBits - 1 then
    if fraction = 0 then .infinite negative else .nan negative fraction
  else if field = 0 then .finite negative fraction f.minUnit
  else .finite negative (fraction + Nat.pow 2 f.fractionBits) (f.minUnit + (field - 1 : Nat))

/-- The pattern in a format with at most as many fraction bits. A NaN keeps its sign and the top of
its payload and becomes quiet. -/
def Format.narrow (source target : Format) (bits : Nat) : Nat :=
  let sign (negative : Bool) := if negative then target.signBit else 0
  match source.decode bits with
  | .finite negative m k => sign negative + target.round m k
  | .infinite negative => sign negative + target.infinity
  | .nan negative payload =>
    let quiet := Nat.pow 2 (target.fractionBits - 1)
    let top := payload / Nat.pow 2 (source.fractionBits - target.fractionBits)
    sign negative + target.infinity + (quiet ||| top)

/-- The pattern of a 64-bit number in the format of the given width; a width without a format of its
own takes thirty-two bits. Sixteen bits are reached through thirty-two: a number so close to the
middle of two 16-bit neighbours that its 32-bit rounding is the middle goes to the even one. -/
def ofDouble (width bits : Nat) : Nat :=
  if width = 64 then bits
  else
    let narrowed := double.narrow single bits
    if width = 16 then single.narrow half narrowed else narrowed

/-- The integer part, toward zero, kept within the range of signed 64-bit integers. A NaN gives
zero. -/
def Format.toInt64 (f : Format) (bits : Nat) : Int :=
  let clamp (i : Int) : Int := max (-0x8000000000000000) (min i 0x7fffffffffffffff)
  match f.decode bits with
  | .finite negative m k =>
    let magnitude : Nat :=
      match k with
      | .ofNat n => m * Nat.pow 2 n
      | .negSucc n => m / Nat.pow 2 (n + 1)
    clamp (if negative then -magnitude else magnitude)
  | .infinite negative => clamp (if negative then -0x8000000000000000 else 0x8000000000000000)
  | .nan _ _ => 0

end ShaderGen.Binary
