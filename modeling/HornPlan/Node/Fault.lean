/-
  HornPlan/Node/Fault.lean
  ========================
  **Why a document cannot be used.**

  One constructor a cause.  `message` is the wording; a text that is broken, or
  that nests too deep, has no wording of its own here.
-/

namespace HornPlan

/-- A reason to refuse a document. -/
inductive Fault where
  /-- The text breaks the grammar of its format or a limit of the reader. -/
  | malformed
  | invalidType (found expected : String)
  | invalidValue (found expected : String)
  | missingField (name : String)
  | duplicateField (name : String)
  | duplicateKey (key : String)
  | emptyEntry
  | secondKey (first key : String)
  | unknownVariant (found : String) (known : List String)
  /-- A reason that is given as a text. -/
  | stated (reason : String)
deriving DecidableEq, Repr, Inhabited

namespace Fault

def ticked (s : String) : String := "`" ++ s ++ "`"

def message : Fault → String
  | malformed => "malformed text"
  | invalidType found expected => "invalid type: " ++ found ++ ", expected " ++ expected
  | invalidValue found expected => "invalid value: " ++ found ++ ", expected " ++ expected
  | missingField name => "missing field " ++ ticked name
  | duplicateField name => "duplicate field " ++ ticked name
  | duplicateKey key => "duplicate key '" ++ key ++ "'"
  | emptyEntry => "empty entry, expected \x7balias: \x7b...\x7d\x7d"
  | secondKey first key =>
    "entry '" ++ first ++ "' has a second key '" ++ key ++ "'; write one alias per list item"
  | unknownVariant found known =>
    "unknown variant " ++ ticked found ++ ", expected one of "
      ++ ", ".intercalate (known.map ticked)
  | stated reason => reason

end Fault

end HornPlan
