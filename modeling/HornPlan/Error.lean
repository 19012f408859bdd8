/-
  HornPlan/Error.lean
  ===================
  **What can go wrong, and in which phase.**

  One constructor a cause, from registration through compilation and proof search
  to execution.  `message` is the wording; `source` is the text of the failure
  underneath, where there is one.

  Specification, sections 7 and B: the `Error` taxonomy, with its texts,
  `is_compile_error` and `is_resolution_error`.
-/
import HornPlan.Node.Fault

namespace HornPlan

inductive Error where
  -- registration
  | unknownAlias (type : String)
  | duplicateAlias (type : String)
  | duplicateResourceType (name type : String)
  | duplicateTask (name : String)
  | duplicateDescriptor (name : String)
  -- compilation
  | emptyArguments (type : String) (id : UInt32)
  | invalidArguments (type reason : String)
  | unresolvedAlias (type context : String)
  | reservedInstanceId (context : String)
  | descriptorTypeMismatch (descriptor resource expected found : String)
  | document (fault : Fault)
  -- proof search
  | underivableResource (atom : String)
  | cyclicDependency (path : List String)
  | outputUnreachable (output atom : String)
  | depthLimitExceeded (atom : String) (limit : Nat)
  -- execution
  | planTypeMismatch (step : Nat) (task expected found : String)
  | emptyPlan
  | taskExecution (task reason : String)
  | typeMismatch (task expected found : String)
  | io (reason : String)
deriving DecidableEq, Repr, Inhabited

namespace Error

def message : Error → String
  | unknownAlias type => "unknown resource alias: " ++ type
  | duplicateAlias type => "alias already registered: " ++ type
  | duplicateResourceType name type =>
    "resource type " ++ name ++ " already registered under alias " ++ type
  | duplicateTask name => "task already registered: " ++ name
  | duplicateDescriptor name => "descriptor already registered: " ++ name
  | emptyArguments type id => "input " ++ type ++ "_" ++ toString id.toNat ++ " declares no args"
  | invalidArguments type reason => "invalid args for " ++ type ++ ": " ++ reason
  | unresolvedAlias type context =>
    "alias " ++ type ++ " referenced by " ++ context ++ " is not registered"
  | reservedInstanceId context => "instance id 0 is reserved for the wildcard (" ++ context ++ ")"
  | descriptorTypeMismatch descriptor resource expected found =>
    "descriptor " ++ descriptor ++ " on " ++ resource ++ ": expected " ++ expected ++ ", found "
      ++ found
  | document fault => "query document error: " ++ fault.message
  | underivableResource atom => "no derivation for " ++ atom
  | cyclicDependency path => "cyclic dependency: " ++ " -> ".intercalate path
  | outputUnreachable output atom =>
    "output " ++ output ++ " is unreachable: no derivation for " ++ atom
  | depthLimitExceeded atom limit =>
    "proof of " ++ atom ++ " exceeded depth limit " ++ toString limit
  | planTypeMismatch step task expected found =>
    "plan type mismatch at step " ++ toString step ++ " (" ++ task ++ "): expects " ++ expected
      ++ ", found " ++ found
  | emptyPlan => "plan has no tasks"
  | taskExecution task reason => "task " ++ task ++ " failed: " ++ reason
  | typeMismatch task expected found =>
    "type mismatch for " ++ task ++ ": expected " ++ expected ++ ", got " ++ found
  | io reason => "io error: " ++ reason

def source : Error → Option String
  | taskExecution _ reason => some reason
  | io reason => some reason
  | _ => none

/-- Raised while a document is read and compiled. -/
def isCompileError : Error → Bool
  | unknownAlias _ | emptyArguments _ _ | invalidArguments _ _ | unresolvedAlias _ _
  | reservedInstanceId _ | descriptorTypeMismatch _ _ _ _ | document _ => true
  | _ => false

def isResolutionError : Error → Bool
  | underivableResource _ | cyclicDependency _ | outputUnreachable _ _
  | depthLimitExceeded _ _ => true
  | _ => false

end Error

/-! ### Registrations -/

/-- What a registration says, and the state that it leaves, also when it is refused. -/
abbrev Registration (σ : Type) := Except Error Unit × σ

/-- The state that a registration leaves, for those who give up when it is refused. -/
def Registration.result {σ : Type} (r : Registration σ) : Except Error σ := r.1.map fun _ => r.2

end HornPlan
