/-!
# Targets

The version of the module format and the environment that a module is meant for. Versions are
ordered by major and then by minor number.
-/

namespace ShaderGen

structure Version where
  major : Nat
  minor : Nat
  deriving DecidableEq, Inhabited

namespace Version

def v1_0 : Version := ⟨1, 0⟩
def v1_1 : Version := ⟨1, 1⟩
def v1_3 : Version := ⟨1, 3⟩
def v1_4 : Version := ⟨1, 4⟩
def v1_5 : Version := ⟨1, 5⟩
def v1_6 : Version := ⟨1, 6⟩

/-- Whether `v` is `w` or later. -/
def atLeast (v w : Version) : Bool :=
  w.major < v.major || (v.major == w.major && w.minor ≤ v.minor)

def word (v : Version) : Nat :=
  v.major * 0x10000 + v.minor * 0x100

end Version

/-- The environment a module is meant for. -/
structure Target where
  version : Version := .v1_0
  /-- Vulkan conventions; OpenGL otherwise. -/
  vulkan : Bool := true
  vulkanMemoryModel : Bool := false
  deriving DecidableEq, Inhabited

/-- Whether storage buffers have a storage class of their own, instead of being uniform blocks with
a decoration. -/
def Target.hasStorageBufferClass (t : Target) : Bool :=
  t.version.atLeast .v1_3

/-- The choices a caller has about the module. -/
structure Options where
  debugNames : Bool := true
  emitSource : Bool := true
  generator : Nat := 0x0008000b
  version : Option Version := none
  /-- Emit every function, called or not. -/
  emitUncalled : Bool := false
  deriving DecidableEq, Inhabited

end ShaderGen
