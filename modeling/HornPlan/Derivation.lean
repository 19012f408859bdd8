/-
  HornPlan/Derivation.lean
  ========================
  **Proof trees.**

  A derivation proves an atom by a clause of a database: its children prove the
  atoms of the body, from left to right.

  Specification, section E.6: `Derivation`, with `render`.
-/
import HornPlan.Database

namespace HornPlan

/-- A proof of `atom` by the clause at position `clause`, which is of kind `kind`. -/
structure Derivation where
  atom : Atom
  clause : Nat
  kind : ClauseKind
  children : List Derivation
deriving Inhabited

namespace Derivation

/-! ### Size and text -/

mutual

def size : Derivation → Nat
  | ⟨_, _, _, children⟩ => 1 + sizes children

def sizes : List Derivation → Nat
  | [] => 0
  | d :: rest => d.size + sizes rest

end

mutual

/-- One line a node, two blanks a level. -/
def lines (level : Nat) : Derivation → List String
  | ⟨atom, _, kind, children⟩ =>
    (String.ofList (List.replicate (2 * level) ' ') ++ atom.text ++ " [" ++ kind.text ++ "]\n")
      :: childLines (level + 1) children

def childLines (level : Nat) : List Derivation → List String
  | [] => []
  | d :: rest => d.lines level ++ childLines level rest

end

def text (d : Derivation) : String := String.join (d.lines 0)

end Derivation

end HornPlan
