import TagCalls.Script.Grammar
import TagCalls.Transpile.Session

/-!
The check that a result is a script.
-/
namespace TagCalls.Transpile

def scriptChecker : Checker := fun code => (Script.fault? code).map fun fault => ⟨fault.message, none⟩

end TagCalls.Transpile
