/-!
# Words

Modules are made of words of 32 bits, and some literals take two words. Integers are wrapped into
words by taking them modulo a power of two.
-/

namespace ShaderGen

abbrev wordCount : Nat := 0x100000000

abbrev wideCount : Nat := 0x10000000000000000

/-- The residue of an integer: what is left of it when there is room for `count` values. -/
def wrap (count : Nat) (i : Int) : Nat :=
  (i % Int.ofNat count).toNat

end ShaderGen
