/-
  HornPlan/Query/Document.lean
  ============================
  **Query documents as texts and files.**

  A document is a JSON or a YAML text.  For a file the name decides which.

  Specification, section E.10: `from_json`, `from_yaml`, `to_yaml` and `load`.
-/
import HornPlan.Json.Reader
import HornPlan.Path
import HornPlan.Query.Decoding
import HornPlan.Query.Encoding
import HornPlan.Error
import HornPlan.Yaml.Layout
import HornPlan.Yaml.Reader

namespace HornPlan.Query

def ofText (read : String → Source) (text : String) : Except Error Query :=
  match ofSource (read text) with
  | .ok q => .ok q
  | .error fault => .error (.document fault)

def ofJson (text : String) : Except Error Query := ofText Json.read text

def ofYaml (text : String) : Except Error Query := ofText Yaml.read text

/-- Does the name of a file say that it holds JSON? -/
def isJsonName (path : String) : Bool :=
  (Path.extension? path).any fun e => e.map Char.toLower = "json"

/-- The document of a file with some content, or the reason why it has none. -/
def ofFile (path : String) (content : Except String String) : Except Error Query :=
  match content with
  | .error reason => .error (.io reason)
  | .ok text => if isJsonName path then ofJson text else ofYaml text

def yaml (q : Query) : String := Yaml.write q.toValue

end HornPlan.Query
