import TagCalls.Config.Comment
import TagCalls.Json.Reader
import TagCalls.Transpile.Session

/-!
The configuration file: JSON with comments. Its value is an object, whose unknown keys do not count,
or the list of the settings in their order.
-/
namespace TagCalls

structure Config where
  pragma : Option Text := none
  mode : Option Mode := none
  validate : Option Bool := none
  bestEffort : Option Bool := none
  scriptType : Option Text := none
  ignore : List Text := []
  deriving DecidableEq, Repr

namespace Config

open Json (Read)

def nullable? {α : Type} (read? : Read → Option α) : Read → Option (Option α)
  | .null => some none
  | value => (read? value).map some

def text? : Read → Option Text
  | .string value => value
  | _ => none

def bool? : Read → Option Bool
  | .bool value => some value
  | _ => none

def modeNamed? (name : Text) : Option Mode :=
  if name = "compat".toList then some .compat
  else if name = "strict".toList then some .strict
  else none

/-- A mode by its name, which may also be the one key of an object. -/
def mode? : Read → Option Mode
  | .string (some name) => modeNamed? name
  | .object [(some name, .null)] => modeNamed? name
  | _ => none

def texts? : Read → Option (List Text)
  | .array items => items.mapM text?
  | _ => none

def ofValues? (pragma mode validate bestEffort scriptType ignore : Read) : Option Config := do
  return {
    pragma := ← nullable? text? pragma
    mode := ← nullable? mode? mode
    validate := ← nullable? bool? validate
    bestEffort := ← nullable? bool? bestEffort
    scriptType := ← nullable? text? scriptType
    ignore := ← texts? ignore }

/-- The value of a key, or a default; a key may not come back. -/
def field? (fields : List (Text × Read)) (key : Text) (missing : Read) : Option Read :=
  match fields.filter (·.1 = key) with
  | [] => some missing
  | [(_, value)] => some value
  | _ => none

def ofFields? (fields : List (Text × Read)) : Option Config := do
  ofValues? (← field? fields "pragma".toList .null) (← field? fields "mode".toList .null)
    (← field? fields "validate".toList .null) (← field? fields "bestEffort".toList .null)
    (← field? fields "scriptType".toList .null) (← field? fields "ignore".toList (.array []))

def keyed? (field : Option Text × Read) : Option (Text × Read) := field.1.map (·, field.2)

def ofJson? : Read → Option Config
  | .object fields => fields.mapM keyed? >>= ofFields?
  | .array [pragma, mode, validate, bestEffort, scriptType, ignore] =>
    ofValues? pragma mode validate bestEffort scriptType ignore
  | .array [pragma, mode, validate, bestEffort, scriptType] =>
    ofValues? pragma mode validate bestEffort scriptType (.array [])
  | _ => none

def parse? (t : Text) : Option Config := Json.parse? (removeComments t) >>= ofJson?

end Config
end TagCalls
