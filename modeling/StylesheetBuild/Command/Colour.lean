/-
Colours of status lines.

The lines are not shown on a terminal, so they are coloured only where the environment insists.
-/
import StylesheetBuild.Disk.Host

namespace StylesheetBuild.Command

/-- What a status line is about. -/
inductive Colour where
  -- success
  | green
  -- something left out
  | yellow
  -- failure
  | red
deriving Repr, DecidableEq

namespace Colour

/-- The number of a colour in a terminal's control sequences. -/
def code : Colour → Nat
  | red => 31
  | green => 32
  | yellow => 33

def control (code : Nat) : Text :=
  ['\x1b', '['] ++ Text.decimal code ++ ['m']

/-- A line, between control sequences if it is to be coloured. -/
def paint (coloured : Bool) (colour : Colour) (line : Text) : Text :=
  if coloured then control colour.code ++ line ++ control 0 else line

/-- The variable that insists on colours unless its value is `0`. -/
def forcingVariable : Text := "CLICOLOR_FORCE".toList

/-- Whether the environment insists on colours. -/
def isForced (lookup : Variables) : Bool :=
  (lookup forcingVariable).any (· != ['0'])

end Colour

end StylesheetBuild.Command
