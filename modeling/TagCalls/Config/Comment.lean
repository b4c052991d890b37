import TagCalls.Text.Basic

/-!
Comments in a configuration file. They run from `//` to the end of the line or from `/*` to the next
`*/`, but not inside a string.
-/
namespace TagCalls.Config

inductive Place where
  | outside
  | string
  /-- Behind a backslash in a string. -/
  | escape
  | lineComment
  | blockComment
  deriving DecidableEq, Repr

def removeFrom : Place → Text → Text
  | .outside, '/' :: '/' :: t => removeFrom .lineComment t
  | .outside, '/' :: '*' :: t => removeFrom .blockComment t
  | .blockComment, '*' :: '/' :: t => removeFrom .outside t
  | _, [] => []
  | .outside, c :: t => c :: removeFrom (if c = '"' then .string else .outside) t
  | .string, c :: t =>
    c :: removeFrom (if c = '"' then .outside else if c = '\\' then .escape else .string) t
  | .escape, c :: t => c :: removeFrom .string t
  | .lineComment, c :: t => if c = '\n' then c :: removeFrom .outside t else removeFrom .lineComment t
  | .blockComment, _ :: t => removeFrom .blockComment t

def removeComments (t : Text) : Text := removeFrom .outside t

end TagCalls.Config
