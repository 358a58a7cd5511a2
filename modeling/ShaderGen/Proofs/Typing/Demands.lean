import ShaderGen.Builder.Finish
import ShaderGen.Proofs.Scope.Relation

/-!
# Capabilities and extensions

What is asked for goes behind what has been declared already, each capability and each extension
once, and an extension only if the version of the module needs it (`Demands.request`). A record is
kept of all that has been asked for. That it is true (`Demands.Lawful`) is kept by every single
request (`Demands.Lawful.request`), and so by every series of them (`Demands.grows_demanding`).
-/

namespace ShaderGen

open List
open Steps (Ends ends_bind)

variable {α : Type} {version : Version}

/-! ## Adding what is new -/

section Added

variable [BEq α] {list : List α} {a c : α}

/-- The element behind the list, if it is new. -/
def added (list : List α) (a : α) : List α := if list.contains a then list else list ++ [a]

theorem prefix_added (list : List α) (a : α) : list <+: added list a := by
  unfold added
  split
  · exact prefix_rfl
  · exact prefix_append _ _

variable [LawfulBEq α]

theorem mem_added : c ∈ added list a ↔ c ∈ list ∨ c = a := by
  unfold added
  split
  · rename_i known
    have known : a ∈ list := by simpa using known
    exact ⟨.inl, fun mem => mem.elim id fun same => same ▸ known⟩
  · simp

theorem nodup_added (h : list.Nodup) : (added list a).Nodup := by
  unfold added
  split
  · exact h
  · rename_i fresh
    refine nodup_append.2 ⟨h, by simp, fun b old c new same => fresh ?_⟩
    simpa [← mem_singleton.1 new, ← same] using old

end Added

/-! ## What may be asked for -/

namespace Extension

/-- All extensions that are ever asked for. -/
def all : List Extension :=
  [.shaderDrawParameters, .multiview, .deviceGroup, .storage16Bit, .storage8Bit,
  .descriptorIndexing,
   .physicalStorageBuffer, .vulkanMemoryModel, .viewportIndexLayer, .demoteToHelper,
   .terminateInvocation, .stencilExport, .fragmentShadingRate, .rayTracing, .rayQuery, .meshShader]

theorem eq_of_name {e e' : Extension} (h : e ∈ all) (h' : e' ∈ all) (same : e.name = e'.name) :
    e = e' := by
  have names : ∀ e ∈ all, ∀ e' ∈ all, e.name = e'.name → e = e' := by decide
  exact names e h e' h' same

/-- The version comes before the one that has made the extension a part of the format, if there is
such a version. -/
def Predated (e : Extension) (v : Version) : Prop :=
  ∀ core, e.coreIn = some core → v.major < core.major ∨ v.major = core.major ∧ v.minor < core.minor

theorem isNeededIn_iff {e : Extension} : e.isNeededIn version ↔ e.Predated version := by
  unfold isNeededIn Predated
  cases e.coreIn with
  | none => simp
  | some core =>
    simp only [Version.atLeast, Option.some.injEq, forall_eq']
    simp
    omega

end Extension

namespace Requirements

/-- Only extensions that are known are asked for. -/
def General (r : Requirements) : Prop := ∀ e ∈ r.extensions, e ∈ Extension.all

instance (r : Requirements) : Decidable r.General := inferInstanceAs (Decidable (∀ _ ∈ _, _))

theorem General.requests {r : Requirements} (h : r.General) :
    ∀ e, .extension e ∈ r.requests → e ∈ Extension.all :=
  fun e mem => h e (by simpa [Requirements.requests] using mem)

theorem General.append {r s : Requirements} (h : r.General) (g : s.General) : (r ++ s).General :=
  fun e mem => (mem_append.1 mem).elim (h e) (g e)

end Requirements

/-! ## The tables of requirements -/

section Tables

variable (stage : Stage)

theorem Stage.requirements_general : stage.requirements.General := by
  cases stage <;> decide

theorem builtInRequirements_general (builtIn : Option BuiltIn) (member : Bool) :
    (builtInRequirements builtIn stage member).General := by
  have nothing : Requirements.none.General := by decide
  cases builtIn with
  | none => exact nothing
  | some b =>
    refine .append (by cases b <;> decide) ?_
    cases member with
    | true => exact nothing
    | false => cases b <;> cases stage <;> decide

theorem Auxiliary.requirements_general (a : Auxiliary) : (a.requirements stage).General := by
  cases a <;> cases stage <;> decide

theorem Sampler.requirements_general (s : Sampler) : s.requirements.General := by
  unfold Sampler.requirements
  generalize s.isStorage = storage
  refine .append ?_ ?_
  · cases s.dimension <;> cases s.arrayed <;> cases storage <;> decide
  · cases s.multisampled <;> cases s.arrayed <;> cases storage <;> decide

theorem ImageFormat.requirements_general (f : ImageFormat) : f.requirements.General := by
  cases f <;> decide

theorem Intrinsic.requirements_general (op : Intrinsic) : op.requirements.General := by
  cases op <;> decide

theorem Coherency.accessNeeds_general (c : Coherency) (vulkan : Bool) :
    (c.accessNeeds vulkan).General := by
  unfold accessNeeds
  split <;> decide

theorem Coherency.scopeNeeds_general (c : Coherency) (vulkan : Bool) :
    (c.scopeNeeds vulkan).General := by
  unfold scopeNeeds
  split <;> decide

end Tables

/-- The version of a module, its capabilities and extensions, and the record of what has been asked
for. -/
structure Demands where
  version : Version
  capabilities : List Capability
  extensions : List String
  answers : List Answer

namespace Demands

variable {d d' : Demands} {q : Request} {qs : List Request}

/-- One thing is asked for. -/
def request (d : Demands) (q : Request) : Demands :=
  let capabilities := match q with
    | .capability c => added d.capabilities c
    | .extension _ => d.capabilities
  let extensions := match q with
    | .capability _ => d.extensions
    | .extension e => if e.isNeededIn d.version then added d.extensions e.name else d.extensions
  { d with capabilities, extensions, answers := d.answers ++ [⟨q, capabilities, extensions⟩] }

/-- One thing is asked for after the other. -/
def demanding (d : Demands) (qs : List Request) : Demands := qs.foldl request d

theorem demanding_append (qs rs : List Request) :
    d.demanding (qs ++ rs) = (d.demanding qs).demanding rs := foldl_append

@[simp] theorem version_request : (d.request q).version = d.version := rfl

theorem prefix_capabilities_request : d.capabilities <+: (d.request q).capabilities := by
  cases q with
  | capability c => exact prefix_added _ _
  | extension e => exact prefix_rfl

theorem prefix_extensions_request : d.extensions <+: (d.request q).extensions := by
  cases q with
  | capability c => exact prefix_rfl
  | extension e =>
    simp only [request]
    split
    · exact prefix_added _ _
    · exact prefix_rfl

theorem mem_capabilities_request {c : Capability} :
    c ∈ (d.request q).capabilities ↔ c ∈ d.capabilities ∨ q = .capability c := by
  cases q with
  | capability c' => simp [request, mem_added, eq_comm]
  | extension e => simp [request]

theorem mem_extensions_request {name : String} : name ∈ (d.request q).extensions ↔
    name ∈ d.extensions ∨ ∃ e, q = .extension e ∧ e.name = name ∧ e.Predated d.version := by
  cases q with
  | capability c => simp [request]
  | extension e =>
    simp only [request]
    split
    · rename_i needed
      simp [mem_added, Extension.isNeededIn_iff.1 needed, eq_comm]
    · rename_i superfluous
      simp [mt Extension.isNeededIn_iff.2 superfluous]

/-- What is declared is what the record says has been asked for, each thing once, and extensions
only if the version needs them. At no time has there been anything that is not in front now, and
nothing but the requests of the record has had a part in it. -/
structure Lawful (d : Demands) : Prop where
  capabilities : d.capabilities.Nodup
  extensions : d.extensions.Nodup
  asked : ∀ c, c ∈ d.capabilities ↔ ∃ a ∈ d.answers, a.request = .capability c
  needed : ∀ name, name ∈ d.extensions ↔
    ∃ a ∈ d.answers, ∃ e, a.request = .extension e ∧ e.name = name ∧ e.Predated d.version
  known : ∀ a ∈ d.answers, ∀ e, a.request = .extension e → e ∈ Extension.all
  grown : ∀ a ∈ d.answers, a.capabilities <+: d.capabilities ∧ a.extensions <+: d.extensions
  replayed : demanding ⟨d.version, [], [], []⟩ (d.answers.map Answer.request) = d

/-- A request keeps the record true. -/
theorem Lawful.request (h : d.Lawful) (general : ∀ e, q = .extension e → e ∈ Extension.all) :
    (d.request q).Lawful := by
  have answers : (d.request q).answers =
      d.answers ++ [⟨q, (d.request q).capabilities, (d.request q).extensions⟩] := rfl
  have grown : ∀ a ∈ d.answers, a.capabilities <+: (d.request q).capabilities ∧
      a.extensions <+: (d.request q).extensions := fun a mem =>
    ⟨(h.grown a mem).1.trans prefix_capabilities_request,
      (h.grown a mem).2.trans prefix_extensions_request⟩
  refine ⟨?_, ?_, fun c => ?_, fun name => ?_, ?_, ?_, ?_⟩
  · cases q with
    | capability c => exact nodup_added h.capabilities
    | extension e => exact h.capabilities
  · cases q with
    | capability c => exact h.extensions
    | extension e =>
      simp only [Demands.request]
      split
      · exact nodup_added h.extensions
      · exact h.extensions
  · rw [mem_capabilities_request, h.asked, answers]
    simp [or_and_right, exists_or]
  · rw [mem_extensions_request, h.needed, answers]
    simp [or_and_right, exists_or]
  · rw [answers]
    simpa [or_imp, forall_and] using ⟨h.known, general⟩
  · rw [answers]
    simpa [or_imp, forall_and] using
      (forall_and.1 fun a => forall_and.1 fun mem => grown a mem)
  · rw [answers, map_append, version_request, demanding_append, h.replayed]
    rfl

/-- What has been declared and recorded stays in front, and the record remains true. -/
structure Grows (d d' : Demands) : Prop where
  version : d'.version = d.version
  capabilities : d.capabilities <+: d'.capabilities
  extensions : d.extensions <+: d'.extensions
  answers : d.answers <+: d'.answers
  lawful : d.Lawful → d'.Lawful

instance : IsPreorder Demands Grows where
  refl _ := ⟨rfl, prefix_rfl, prefix_rfl, prefix_rfl, id⟩
  trans _ _ _ h g := ⟨g.version.trans h.version, h.capabilities.trans g.capabilities,
    h.extensions.trans g.extensions, h.answers.trans g.answers, g.lawful ∘ h.lawful⟩

theorem grows_demanding (d : Demands) (general : ∀ e, .extension e ∈ qs → e ∈ Extension.all) :
    d.Grows (d.demanding qs) := by
  induction qs generalizing d with
  | nil => exact refl_of Grows d
  | cons q rest ih =>
    have first : d.Grows (d.request q) :=
      ⟨rfl, prefix_capabilities_request, prefix_extensions_request, prefix_append _ _,
        fun h => h.request fun e same => general e (same ▸ mem_cons_self)⟩
    exact trans_of Grows first (ih _ fun e mem => general e (mem_cons_of_mem q mem))

end Demands

namespace Builder

variable {b b' : Builder} {u : Unit}

def demands (b : Builder) : Demands :=
  ⟨b.output.version, b.output.capabilities, b.output.extensions, b.answers⟩

def withDemands (b : Builder) (d : Demands) : Builder :=
  { b with
    output.capabilities := d.capabilities, output.extensions := d.extensions, answers := d.answers }

/-- One thing is asked for after the other. -/
def demanding (b : Builder) (qs : List Request) : Builder := b.withDemands (b.demands.demanding qs)

theorem demands_demanding (b : Builder) (qs : List Request) :
    (b.demanding qs).demands = b.demands.demanding qs := by
  have version : ∀ d : Demands, (d.demanding qs).version = d.version := by
    induction qs with
    | nil => exact fun _ => rfl
    | cons q rest ih => exact fun d => ih _
  exact congrArg (fun v => { b.demands.demanding qs with version := v }) (version b.demands).symm

theorem demanding_append (qs rs : List Request) :
    (b.demanding qs).demanding rs = b.demanding (qs ++ rs) := by
  rw [demanding, demands_demanding, ← Demands.demanding_append]
  rfl

theorem ends_addCapability {c : Capability} (ends : Ends (addCapability c) b u b') :
    b' = b.demanding [.capability c] := by
  cases ends
  by_cases known : c ∈ b.output.capabilities <;>
    simp [demanding, withDemands, demands, Demands.demanding, Demands.request, added, known]

theorem ends_useExtension {e : Extension} (ends : Ends (useExtension e) b u b') :
    b' = b.demanding [.extension e] := by
  replace ends := ends_get ends
  by_cases needed : e.isNeededIn b.output.version
  · rw [if_pos (show e.isNeededIn b.version = true from needed)] at ends
    cases ends
    by_cases known : e.name ∈ b.output.extensions <;>
      simp [demanding, withDemands, demands, Demands.demanding, Demands.request, added,
        needed, known]
  · rw [if_neg (show ¬ e.isNeededIn b.version = true from needed)] at ends
    cases ends
    simp [demanding, withDemands, demands, Demands.demanding, Demands.request, needed]

theorem ends_forM_demanding {step : α → Emit Unit} {request : α → Request}
    (one : ∀ {a b b'}, Ends (step a) b () b' → b' = b.demanding [request a]) {list : List α}
    (ends : Ends (list.forM step) b u b') : b' = b.demanding (list.map request) := by
  induction list generalizing b with
  | nil =>
    cases ends
    rfl
  | cons a rest ih =>
    obtain ⟨_, b0, first, second⟩ := ends_bind ends
    rw [ih second, one first, demanding_append]
    rfl

theorem ends_require {r : Requirements} (ends : Ends (require r) b u b') :
    b' = b.demanding r.requests := by
  obtain ⟨_, b1, first, second⟩ := ends_bind ends
  rw [ends_forM_demanding ends_useExtension second, ends_forM_demanding ends_addCapability first,
    demanding_append]
  rfl

/-- All that is required is recorded. -/
theorem requests_of_require {r : Requirements} (ends : Ends (require r) b u b') :
    b'.answers.map Answer.request = b.answers.map Answer.request ++ r.requests := by
  have recorded : ∀ (qs : List Request) (d : Demands), (d.demanding qs).answers.map Answer.request =
      d.answers.map Answer.request ++ qs := by
    intro qs
    induction qs with
    | nil => exact fun _ => (append_nil _).symm
    | cons q rest ih => exact fun d => (ih _).trans (by simp [Demands.request])
  rw [ends_require ends]
  exact recorded r.requests b.demands

/-- What finishing a module requires before all else. -/
theorem narrowed_eq (b : Builder) (order : SetOrder) :
    ((require (b.output.narrowRequirements order)).run b).2 =
      b.demanding (b.output.narrowRequirements order).requests := ends_require rfl

end Builder

end ShaderGen
