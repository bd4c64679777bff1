/-!
Blank characters and the functions on text that depend on them: trimming, and splitting into
words. Blank means the White_Space property of Unicode, 25 characters in all; the zero-width
space and the byte order mark are not among them.
-/

namespace FormDependencies.Text

def isBlank (c : Char) : Bool :=
  let n := c.toNat
  (9 ≤ n && n ≤ 13) || n == 0x20 || n == 0x85 || n == 0xA0 || n == 0x1680 ||
    (0x2000 ≤ n && n ≤ 0x200A) || n == 0x2028 || n == 0x2029 || n == 0x202F || n == 0x205F ||
    n == 0x3000

def dropWhileEnd (p : Char → Bool) (cs : List Char) : List Char :=
  (cs.reverse.dropWhile p).reverse

def trimChars (cs : List Char) : List Char :=
  dropWhileEnd isBlank (cs.dropWhile isBlank)

def trim (s : String) : String :=
  String.ofList (trimChars s.toList)

/-- The maximal runs of characters that are not blank; `word` holds the current run, last
character first. -/
def wordChars (word : List Char) : List Char → List (List Char)
  | [] => if word.isEmpty then [] else [word.reverse]
  | c :: cs =>
    if isBlank c then
      if word.isEmpty then wordChars [] cs else word.reverse :: wordChars [] cs
    else wordChars (c :: word) cs

/-- The blank-separated words of a text, in order. -/
def words (s : String) : List String :=
  (wordChars [] s.toList).map String.ofList

end FormDependencies.Text
