import ViewLint.Text.Basic

/-!
# Looks on a terminal

Parts of a line can be set off by escape sequences: one that turns a look on and one that turns it
off again.
-/

namespace ViewLint

/-- A look: the sequences that turn it on and off. -/
structure Style where
  on : String
  off : String
  deriving DecidableEq

namespace Style

/-- The looks in use. -/
def bold : Style := ⟨"\x1b[1m", "\x1b[22m"⟩
@[inherit_doc bold] def faint : Style := ⟨"\x1b[2m", "\x1b[22m"⟩
@[inherit_doc bold] def redBold : Style := ⟨"\x1b[31;1m", "\x1b[0;22m"⟩
@[inherit_doc bold] def yellowBold : Style := ⟨"\x1b[33;1m", "\x1b[0;22m"⟩
@[inherit_doc bold] def brightRedBold : Style := ⟨"\x1b[91;1m", "\x1b[0;22m"⟩

/-- Sets a part off, if colours are wanted. -/
def paint (color : Bool) (style : Style) (part : Text) : Text :=
  if color then Text.ofString style.on ++ part ++ Text.ofString style.off else part

end Style

end ViewLint
