/-
  HornPlan/Yaml/Token.lean
  ========================
  **The words of a YAML text.**

  Tokens are the indicators, the scalars with their final text, and three marks
  that indentation leaves: the start of a block sequence or mapping and the end of
  a block.
-/
import HornPlan.Yaml.Scalar

namespace HornPlan.Yaml

inductive Token where
  | streamStart
  | streamEnd
  | versionDirective (major minor : Nat)
  | tagDirective (handle : String) (stem : Tag)
  | documentStart
  | documentEnd
  | blockSequenceStart
  | blockMappingStart
  | blockEnd
  | flowSequenceStart
  | flowSequenceEnd
  | flowMappingStart
  | flowMappingEnd
  | blockEntry
  | flowEntry
  | key
  | value
  | link (name : String)
  | anchor (name : String)
  | tag (handle : String) (suffix : Tag)
  | scalar (text : String) (style : Style)
deriving DecidableEq, Repr, Inhabited

end HornPlan.Yaml
