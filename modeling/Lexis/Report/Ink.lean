/-
# Inks

The parts of a message that can be told apart by colour: the mark of an error,
the text that matters, and the pointer to a place.  How a text is painted in an
ink is up to the palette, which is a parameter of every message.  A plain palette
leaves all texts as they are.  What is proved of messages holds with every palette,
or else with the plain one; the palette of a terminal is for programs to pass.
-/

namespace Lexis

/-- What a part of a message is for. -/
inductive Ink
  /-- The mark of an error and the line under the place. -/
  | error
  /-- The words of a message. -/
  | strong
  /-- The pointer before a place. -/
  | pointer
deriving DecidableEq, Repr

/-- A way to paint texts. -/
structure Palette where
  /-- The text in the ink. -/
  paint : Ink → String → String

namespace Palette

/-- The palette that leaves every text as it is. -/
def plain : Palette := ⟨fun _ text => text⟩

/-- The palette of a terminal: a text stands between the code that selects bold red, bold
or bold cyan and the code that ends them, an empty text too. -/
def colored : Palette where
  paint ink text :=
    let code := match ink with
      | .error => "1;31"
      | .strong => "1"
      | .pointer => "1;36"
    "\x1b[" ++ code ++ "m" ++ text ++ "\x1b[0m"

end Palette

/-- The text in the ink, as the palette has it. -/
def Ink.paint (ink : Ink) (palette : Palette) (text : String) : String := palette.paint ink text

@[simp] theorem Ink.paint_plain (ink : Ink) (text : String) : ink.paint .plain text = text := rfl

end Lexis
