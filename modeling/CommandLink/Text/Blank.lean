/-!
# White space

The characters with the Unicode property `White_Space`, in ascending order of their code points,
and the removal of them from text.
-/

namespace CommandLink.Text

/-- The ranges of the property, ends included. -/
def blankRanges : List (Nat × Nat) :=
  [(0x09, 0x0D), (0x20, 0x20), (0x85, 0x85), (0xA0, 0xA0), (0x1680, 0x1680), (0x2000, 0x200A),
    (0x2028, 0x2029), (0x202F, 0x202F), (0x205F, 0x205F), (0x3000, 0x3000)]

/-- Whether a character is white space. -/
def isBlank (c : Char) : Bool :=
  blankRanges.any fun (first, last) => first ≤ c.toNat && c.toNat ≤ last

/-- A text without the white space at its ends. -/
def trim (text : List Char) : List Char :=
  ((text.dropWhile isBlank).reverse.dropWhile isBlank).reverse

/-- A text without any white space. -/
def squeeze (text : List Char) : List Char := text.filter (!isBlank ·)

/-- The pieces of a text between the separators, one more than there are separators. -/
def split (separator : Char) (text : List Char) : List (List Char) :=
  let (piece, pieces) := text.foldr
    (fun c (piece, pieces) => if c = separator then ([], piece :: pieces) else (c :: piece, pieces))
    ([], [])
  piece :: pieces

end CommandLink.Text
