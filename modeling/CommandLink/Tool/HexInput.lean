import CommandLink.Text.Blank
import CommandLink.Text.Hex
import CommandLink.Tool.Report

/-!
# Hexadecimal input

Byte strings are typed in hexadecimal digits of either case, with white space anywhere and `0x` in
front if the user likes.
-/

namespace CommandLink.HexInput

/-- A text without `0x` or `0X` in front. -/
def withoutMark : List Char → List Char
  | '0' :: 'x' :: text | '0' :: 'X' :: text => text
  | text => text

/-- The digits of a typed text: no white space, and no mark in front. -/
def digits (text : String) : List Char := withoutMark (Text.squeeze text.toList)

/-- The byte string that a text is. -/
def bytes (text : String) : Except Hex.Error Bytes :=
  Hex.toBytes (Bytes.ofString (String.ofList (digits text)))

/-- The byte string that an argument is; `input` names the argument. -/
def parse (input text : String) : Except ToolFailure Bytes := (bytes text).mapError (.hex input)

end CommandLink.HexInput
