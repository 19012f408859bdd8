/-
  HornPlan/Demo.lean
  ==================
  **The demonstration: topics, sentences, paragraphs, images and recipes.**

  Five types, four tasks and three descriptors with simple, deterministic work, so
  that plans can be run without anything else.

  Specification, sections 8 and A: the demonstration catalog.
-/
import HornPlan.Planner
import HornPlan.Text.Blank
import HornPlan.Text.Uppercase

namespace HornPlan.Demo

def registry : Except Error Registry := do
  let r ← Registry.empty.register "topic" ⟨"Topic", ["topic"]⟩
  let r ← r.register "sentence" ⟨"Sentence", []⟩
  let r ← r.register "paragraph" ⟨"Paragraph", []⟩
  let r ← r.register "image" ⟨"Image", []⟩
  r.register "recipe" ⟨"Recipe", []⟩

/-! ### The work -/

/-- The text of a field that the work cannot do without. -/
def need (field : String) (r : Resource) : Except String String :=
  match r.getText? field with
  | some s => .ok s
  | none => .error (r.type ++ " has no '" ++ field ++ "' field")

/-- The text up to and including the first full stop. -/
def firstSentence (s : String) : String :=
  let body := s.toList.takeWhile (· ≠ '.')
  Text.trimmed (if body.length < s.length then String.ofList body ++ "." else s)

def writeSentence : Task where
  name := "WriteSentence"
  description := "One sentence about a topic"
  input := "topic"
  output := "sentence"
  work r := do
    let topic ← need "topic" r
    return (Resource.ofType "sentence").set "text"
      (.text (Text.capitalized topic ++ " are worth writing about."))

def expandParagraph : Task where
  name := "ExpandParagraph"
  description := "Grow a sentence into a paragraph"
  input := "sentence"
  output := "paragraph"
  work r := do
    let text ← need "text" r
    return (Resource.ofType "paragraph").set "text"
      (.text (text ++ " There is always more to say. " ++ text))

def summarize : Task where
  name := "Summarize"
  description := "Keep the first sentence of a paragraph"
  input := "paragraph"
  output := "sentence"
  work r := do
    let text ← need "text" r
    return (Resource.ofType "sentence").set "text" (.text (firstSentence text))

def illustrate : Task where
  name := "Illustrate"
  description := "Render a sentence as an image prompt"
  input := "sentence"
  output := "image"
  work r := do
    let text ← need "text" r
    return ((Resource.ofType "image").set "prompt" (.text text)).set "width" (.ofNat 512)
      |>.set "height" (.ofNat 512)

def nameDish : Task where
  name := "NameDish"
  description := "Title a recipe after its topic"
  input := "topic"
  output := "recipe"
  work r := do
    let topic ← need "topic" r
    return (Resource.ofType "recipe").set "title" (.text (Text.capitalized topic ++ " soup"))

def listIngredients : Task where
  name := "ListIngredients"
  description := "List what goes into a recipe"
  input := "topic"
  output := "recipe"
  work r := do
    let topic ← need "topic" r
    return (Resource.ofType "recipe").set "ingredients"
      (.texts [topic, "onion", "stock", "salt"])

def writeSteps : Task where
  name := "WriteSteps"
  description := "Write the method of a recipe"
  input := "topic"
  output := "recipe"
  work r := do
    let topic ← need "topic" r
    return (Resource.ofType "recipe").set "steps"
      (.texts ["Chop the " ++ topic ++ ".", "Sweat the onion.", "Add stock and simmer.",
        "Season with salt."])

/-! ### Everything together -/

def catalog : Except Error Catalog := do
  let c ← [writeSentence, expandParagraph, summarize, illustrate].foldlM Catalog.registerTask
    Catalog.empty
  let c ← c.registerDescriptor "title" nameDish
  let c ← c.registerDescriptor "ingredients" listIngredients
  c.registerDescriptor "steps" writeSteps

def planner (maxDepth : Nat) : Except Error Planner := do
  return { registry := ← registry, catalog := ← catalog, maxDepth }

end HornPlan.Demo
