import SchemaModel.Table
import SchemaModel.Text.Substring

/-!
# Options of a compilation

Schema type names have spellings in the target language, and names of the target language need
include directives.  Both tables start from defaults; an override replaces the value of its key in
place, and a new key goes to the end.

* `Spellings` — schema type names and their spellings;
* `Includes` — target names and their include directives;
* `Includes.matching` — the directives that a descriptor needs;
* `Options` — everything a compilation depends on but the document.
-/

namespace SchemaModel

/-- The spelling of each schema type name in the target language. -/
abbrev Spellings := Table String

/-- The include directive of each name of the target language. -/
abbrev Includes := Table String

namespace Spellings

/-- The spellings of the built-in type names. -/
def default : Spellings :=
  [("integer", "int64_t"), ("number", "double"), ("string", "std::string"), ("boolean", "bool"),
    ("array", "std::vector"), ("tuple", "std::tuple"), ("variant", "std::variant")]

/-- The defaults with overrides put on top. -/
def overridden (overrides : List (String × String)) : Spellings := default.putAll overrides

end Spellings

namespace Includes

/-- The include directives of the built-in spellings. -/
def default : Includes :=
  [("std::string", "<string>"), ("std::vector", "<vector>"), ("std::tuple", "<tuple>"),
    ("std::variant", "<variant>")]

/-- The defaults with overrides put on top. -/
def overridden (overrides : List (String × String)) : Includes := default.putAll overrides

/-- The directives of all names that occur anywhere in a descriptor, in table order. -/
def matching (includes : Includes) (descriptor : String) : List String :=
  (includes.filter fun e => Text.occursIn e.1 descriptor).map (·.2)

end Includes

/-- The sources that support enumerations and variants. -/
structure Helpers where
  enumSource : String := "enum_conversion.hpp"
  variantSource : String := "json_utils.hpp"
deriving DecidableEq, Repr

namespace Helpers

/-- The include directive of a source of one's own. -/
def quoted (source : String) : String := "\"" ++ source ++ "\""

/-- The include directive of the enumeration support. -/
def enumInclude (h : Helpers) : String := quoted h.enumSource

/-- The include directive of the variant support. -/
def variantInclude (h : Helpers) : String := quoted h.variantSource

end Helpers

/-- Everything a compilation depends on but the document. -/
structure Options where
  spellings : Spellings := Spellings.default
  includes : Includes := Includes.default
  helpers : Helpers := {}
deriving DecidableEq, Repr

end SchemaModel
