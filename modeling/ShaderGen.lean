import ShaderGen.Proofs.Control.Execution
import ShaderGen.Source.Construction
import ShaderGen.Spirv.Encoding
import ShaderGen.Spirv.Listing
import ShaderGen.Proofs.Typing.Agreement
import ShaderGen.Proofs.Typing.Decorations
import ShaderGen.Proofs.Typing.Narrow
import ShaderGen.Proofs.Calls.Declared
import ShaderGen.Proofs.Machine.Layouts
import ShaderGen.Proofs.Typing.Termination
import ShaderGen.Proofs.Typing.Requirements
import ShaderGen.Proofs.Generation.Debugging
import ShaderGen.Proofs.Generation.Simple
import ShaderGen.Proofs.Control.Groups
import ShaderGen.Proofs.Control.Joins
