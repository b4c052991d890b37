import TagCalls.CommandLine
import TagCalls.Config.File
import TagCalls.Page.Locate

/-!
The settings of a run: command line, environment and configuration file put together, in this order
of weight.
-/
namespace TagCalls

structure Settings where
  pragma : Text
  mode : Mode
  validate : Bool
  bestEffort : Bool
  scriptType : Text
  ignore : List Text
  deriving DecidableEq, Repr

namespace Settings

def nonBlank (name : Option Text) : Option Text := name.filter fun t => !(Text.trim t).isEmpty

def resolve (arguments : Arguments) (config : Config) (environment : Option Text) : Settings where
  pragma := ((arguments.pragma.or (nonBlank environment)).or config.pragma).getD Directive.defaultName
  mode := if arguments.strict then .strict else config.mode.getD .compat
  validate := arguments.validate || config.validate.getD false
  bestEffort := arguments.bestEffort || config.bestEffort.getD false
  scriptType := config.scriptType.getD Page.defaultType
  ignore := config.ignore ++ arguments.ignore

def session (settings : Settings) (checker : Checker) : Session where
  pragma := settings.pragma
  lowering := settings.mode.lowering
  checker := if settings.validate then some checker else none

end Settings
end TagCalls
