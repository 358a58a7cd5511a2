import ShaderGen.Builder.Blocks
import ShaderGen.Builder.Narrow

/-!
# The finished module

Finishing adds the capabilities that narrow types take, sets the memory model and drops repeated
decorations and names.
-/

namespace ShaderGen

namespace Module

/-- Keeps the first of equal annotations, and the first name of each id or member. -/
def withoutRepeats (m : Module) : Module :=
  { m with
    annotations := m.annotations.foldl (fun kept a =>
      if kept.contains a then kept else kept ++ [a]) []
    names := m.names.foldl (fun kept n =>
      if kept.any fun k => k.target == n.target && k.member == n.member then kept
      else kept ++ [n]) [] }

end Module

def Builder.finish (b : Builder) (order : SetOrder := .met) : Module :=
  let b := ((Builder.require (b.output.narrowRequirements order)).run b).2
  let memoryModel := if b.vulkanMemoryModel then MemoryModel.vulkan else .glsl450
  { b.output with memoryModel := some (b.addressing, memoryModel) }.withoutRepeats

end ShaderGen
