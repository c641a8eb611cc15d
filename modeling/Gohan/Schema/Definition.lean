import Gohan.Lang.Value

/-!
# What the definition of a schema says

The server and the converter both read the definitions of schemas, with their own code.  Here is
what they look for in them: the identifier, the parent, the bases, and the map of properties.
-/

set_option autoImplicit false

namespace Gohan.Definition

/-- The identifier that a definition gives. -/
def schemaID (data : Dict) : String := (data.get "id").maybeString

/-- The parent that a definition names. -/
def parentOf (data : Dict) : String := (data.get "parent").maybeString

/-- The schemas that a definition extends. -/
def basesOf (data : Dict) : List String := (data.get "extends").maybeStringList

/-- The properties that a definition writes down. -/
def writtenProperties (data : Dict) : Dict :=
  ((data.get "schema").maybeMap.get "properties").maybeMap

/-- There is a map of properties, though it may be empty. -/
def HasProperties (data : Dict) : Prop :=
  ((data.get "schema").maybeMap.get "properties").map?.isSome = true

/-- The definition is one of an abstract schema. -/
def IsAbstract (data : Dict) : Prop := (data.get "type").maybeString = "abstract"

instance : DecidablePred IsAbstract := fun _ ↦ instDecidableEqString _ _

instance : DecidablePred HasProperties := fun _ ↦ instDecidableEqBool _ _

end Gohan.Definition
