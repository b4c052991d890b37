import TagCalls.Attribute
import TagCalls.Span

/-!
Tags and the calls that stand for them: `<name a="1"/>` is a whole call, `<name a="1">` opens one
and `</name>` closes it.
-/
namespace TagCalls

inductive Tag.Kind where
  | selfClosing
  | opening
  | closing
  deriving DecidableEq, Repr

/-- A tag; `raw` is the text between the name and the end of the tag, empty in a closing tag. -/
structure Tag where
  kind : Tag.Kind
  name : Text
  raw : Text
  deriving DecidableEq, Repr

structure Tag.Token where
  tag : Tag
  span : Span
  deriving DecidableEq, Repr

namespace Tag

def render : Tag → Text
  | ⟨.selfClosing, name, raw⟩ => '<' :: (name ++ raw ++ "/>".toList)
  | ⟨.opening, name, raw⟩ => '<' :: (name ++ raw ++ ">".toList)
  | ⟨.closing, name, _⟩ => "</".toList ++ name ++ ">".toList

def callHead (target name raw : Text) : Text :=
  target ++ "('".toList ++ name ++ "', ".toList ++ Attribute.literal (Attribute.parse raw)

def call (target : Text) : Tag → Text
  | ⟨.selfClosing, name, raw⟩ => callHead target name raw ++ ")".toList
  | ⟨.opening, name, raw⟩ => callHead target name raw ++ ", ".toList
  | ⟨.closing, _, _⟩ => ")".toList

end Tag
end TagCalls
