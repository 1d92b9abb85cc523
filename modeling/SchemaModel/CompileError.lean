import SchemaModel.Location

/-!
# Why a document does not compile

Every cause but a malformed document names the place of the offending node.
-/

namespace SchemaModel

/-- Why a document has no model. -/
inductive CompileError where
  | schemaFormat (detail : String)
  | invalidFieldList (location : Location) (property : String) (declared : List String)
  | unknownType (location : Location) (typeName : String)
  | unsupportedLiteral (location : Location) (literal : String)
  | nestingTooDeep (location : Location) (limit : Nat)
deriving DecidableEq, Repr

namespace CompileError

/-- The place of the offending node, when the error is tied to one. -/
def location? : CompileError → Option Location
  | .schemaFormat _ => none
  | .invalidFieldList l _ _ | .unknownType l _ | .unsupportedLiteral l _ | .nestingTooDeep l _ =>
    some l

/-- The wording of an error tied to a place. -/
def located (l : Location) (what : String) : String := "invalid json at " ++ l.text ++ ": " ++ what

/-- The wording of an error. -/
def message : CompileError → String
  | .schemaFormat detail => "schema does not match the meta-schema: " ++ detail
  | .invalidFieldList l property declared =>
    located l ("property '" ++ property ++ "' is not contained in 'declared_fields: [" ++
      ", ".intercalate declared ++ "]'")
  | .unknownType l typeName => located l ("no type mapping for '" ++ typeName ++ "'")
  | .unsupportedLiteral l literal => located l ("cannot render default literal " ++ literal)
  | .nestingTooDeep l limit =>
    located l ("schema nesting exceeds " ++ toString limit ++ " levels")

end CompileError

end SchemaModel
