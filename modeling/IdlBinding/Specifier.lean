import IdlBinding.Blank

/-!
# Module specifiers

What a module specifier is bound to by default, and how it is completed.

* `identifier` — the name derived from a specifier: every run of `/`, `.` and `-` counts as one
  blank, white space at the ends is dropped, and the blanks that remain become underscores.
* `complete` — a relative specifier ends with the source extension.
-/

namespace IdlBinding.Specifier

/-- The characters that divide a specifier into segments. -/
def isSeparator (c : Char) : Bool := c = '/' || c = '.' || c = '-'

/-- Replace every run of separators by one blank. `inRun` says that the character before was a
separator. -/
def spread (inRun : Bool) : List Char → List Char
  | [] => []
  | c :: cs =>
    if isSeparator c then
      if inRun then spread true cs else ' ' :: spread true cs
    else c :: spread false cs

/-- Blanks become underscores. -/
def underscore (c : Char) : Char := if c = ' ' then '_' else c

/-- The name derived from a specifier. -/
def identifier (specifier : String) : String :=
  String.ofList ((trim (spread false specifier.toList)).map underscore)

/-- The specifier starts at the importing module. -/
def isRelative (specifier : String) : Bool := specifier.toList.head? == some '.'

/-- Give a relative specifier the extension, unless it has it already. -/
def complete (extension specifier : String) : String :=
  if isRelative specifier && !extension.toList.isSuffixOf specifier.toList then
    specifier ++ extension
  else specifier

end IdlBinding.Specifier
