/-
  HornPlan/Toml/Text.lean
  =======================
  **Texts in TOML quotes.**

  A text is written in the first of five styles that shows it as it is: quotes
  ("), single quotes ('), three quotes, three single quotes.  When a character has
  to be escaped, quotes with escapes are left: three of them if there is a line
  break, one otherwise.

  Specification, section D: the configuration as it is dumped.
-/

namespace HornPlan.Toml

/-- A control character, tabs and line breaks apart. -/
def isControl (c : Char) : Bool := (c.toNat < 0x20 && c ≠ '\t' && c ≠ '\n') || c.toNat = 0x7F

/-- The length of the longest run of a character; `run` is that of the run that ends
    where the text begins. -/
def longestRun (c : Char) : (run : Nat) → List Char → Nat
  | run, [] => run
  | run, d :: rest => if d = c then longestRun c (run + 1) rest else max run (longestRun c 0 rest)

def codeEscape (c : Char) : List Char :=
  if c = '\x08' then ['\\', 'b']
  else if c = '\t' then ['\\', 't']
  else if c = '\n' then ['\\', 'n']
  else if c = '\x0c' then ['\\', 'f']
  else if c = '\r' then ['\\', 'r']
  else if c = '"' then ['\\', '"']
  else if c = '\\' then ['\\', '\\']
  else
    '\\' :: 'u' :: '0' :: '0' ::
      [(Nat.digitChar (c.toNat / 16)).toUpper, (Nat.digitChar (c.toNat % 16)).toUpper]

/-- The inside of quotes.  In three quotes line breaks stand for themselves, and so
    do quotes, of which no three may follow one another; `run` counts them. -/
def escapedBody (long : Bool) : (run : Nat) → List Char → List Char
  | _, [] => []
  | run, c :: rest =>
    if c = '"' then
      if long && run < 2 then c :: escapedBody long (run + 1) rest
      else codeEscape c ++ escapedBody long 0 rest
    else if c = '\t' || c = '\\' || isControl c || (c = '\n' && !long) then
      codeEscape c ++ escapedBody long 0 rest
    else c :: escapedBody long 0 rest

def quoted (s : String) : String :=
  let cs := s.toList
  let hasControl := cs.any isControl
  let hasBackslash := cs.contains '\\'
  let hasBreak := cs.contains '\n'
  let doubles := longestRun '"' 0 cs
  let singles := longestRun '\'' 0 cs
  let opening := if hasBreak then "\n" else ""
  let long := "\"\"\"" ++ opening ++ String.ofList (escapedBody true 0 cs) ++ "\"\"\""
  let short := "\"" ++ String.ofList (escapedBody false 0 cs) ++ "\""
  if !hasControl && !hasBackslash && !hasBreak && doubles = 0 then short
  else if !hasControl && !hasBreak && singles = 0 then "'" ++ s ++ "'"
  else if !hasControl && !hasBackslash && doubles ≤ 2 then long
  else if !hasControl && singles ≤ 2 then "'''" ++ opening ++ s ++ "'''"
  else if hasBreak then long
  else short

end HornPlan.Toml
