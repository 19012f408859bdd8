/-
  HornPlan/Yaml/Tag.lean
  ======================
  **Tags of YAML nodes.**

  A tag is written in ASCII; other octets stand in it with a `%`.  Such octets come
  in groups that look like a UTF-8 sequence, but a group may still spell no character
  (a surrogate, a form that is longer than needed).  An octet of zero ends the tag,
  or the part of a tag, that it is written in.
-/

namespace HornPlan.Yaml

/-- A tag or a part of one. -/
structure Tag where
  /-- The text, with a replacement character for each group that spells none. -/
  text : String
  /-- Does every group of octets spell a character? -/
  wellFormed : Bool
deriving DecidableEq, Repr, Inhabited

namespace Tag

def ofText (s : String) : Tag := ⟨s, true⟩

/-- The tag of what is written: characters, and groups of octets that spell none. -/
def ofWritten (cs : List (Option Char)) : Tag :=
  let cs := cs.takeWhile (· ≠ some '\x00')
  ⟨String.ofList (cs.map (·.getD '\ufffd')), cs.all Option.isSome⟩

/-- A tag in two parts. -/
def append (s t : Tag) : Tag := ⟨s.text ++ t.text, s.wellFormed && t.wellFormed⟩

/-- A tag of the standard. -/
def standard (name : String) : Tag := ofText ("tag:yaml.org,2002:" ++ name)

/-- The tag that says no more than that there is one. -/
def bare : Tag := ofText "!"

/-- Is it a tag of the document's own? -/
def isLocal (t : Tag) : Bool := t.text.startsWith "!"

/-- Does it name a variant of a type?  Only a tag of the document's own does, and
    only if it can be read as a text. -/
def namesVariant (t : Tag) : Bool := t.isLocal && t.wellFormed

end Tag

end HornPlan.Yaml
