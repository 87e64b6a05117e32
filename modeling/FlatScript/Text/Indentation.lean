/-!
# Indentation
-/

namespace FlatScript.Text

/-- The indentation of one level. -/
def indentStep : String := "    "

/-- The indentation of a level: four spaces for each level above the lowest. -/
def indentation : Nat → String
  | 0 => ""
  | level + 1 => indentStep ++ indentation level

end FlatScript.Text
