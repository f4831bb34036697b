namespace Rubato

/-! Values of the YAML format, as far as settings need it: scalars with their text
and whether they were written plain, sequences and mappings. A value that is not
written at all is the plain scalar of no text. -/

inductive Yaml
  | scalar (plain : Bool) (text : String)
  | sequence (items : List Yaml)
  | mapping (entries : List (Yaml × Yaml))

namespace Yaml

def absent : Yaml := .scalar true ""

end Yaml

end Rubato
