import TagCalls.Tag.Pattern

/-!
Lowering tags by three substitutions, each over the result of the one before: self-closing tags become
whole calls, opening tags begin a call and closing tags end one, whatever their names. It never
fails. Tags next to each other get no comma between their calls.
-/
namespace TagCalls.Lowering

def selfClosingPass (target source : Text) : Text := Tag.selfClosing.replace (Tag.call target) source

def openingPass (target source : Text) : Text := Tag.opening.replace (Tag.call target) source

def closingPass (source : Text) : Text := Tag.closing.replace (Tag.call []) source

def passes (target source : Text) : Text :=
  closingPass (openingPass target (selfClosingPass target source))

end TagCalls.Lowering
