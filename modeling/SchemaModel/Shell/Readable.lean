/-!
# Texts that a shell can read back

A text is shown between single quotes; single quotes in it stand between double ones.

* `readable` — a text that is read as one word again.
-/

namespace SchemaModel.Shell

/-- Characters between quotes; the flag says that single quotes are open, and not double ones. -/
def readableFrom (inSingle : Bool) : List Char → List Char
  | [] => [if inSingle then '\'' else '"']
  | '\'' :: rest =>
    if inSingle then '\'' :: '"' :: '\'' :: readableFrom false rest
    else '\'' :: readableFrom false rest
  | c :: rest =>
    if inSingle then c :: readableFrom true rest
    else '"' :: '\'' :: c :: readableFrom true rest

/-- A text that is read as one word again. -/
def readable (text : String) : String := String.ofList ('\'' :: readableFrom true text.toList)

end SchemaModel.Shell
