/-!
# Wildcards

A pattern is a text in which `*` stands for any characters but line feeds. Matching works from the end of the pattern: for every suffix of the text it is known whether the rest of the pattern matches it, and one more character of the pattern turns one such row into the next. A pattern with stars is compiled before it is searched for, and what compiles it may refuse it; a pattern that is refused matches nothing.
-/

namespace TwinShell.Text

/-- The row for a plain character in front of a pattern with the row `row`. -/
def plainRow (p : Char) : List Char → List Bool → List Bool
  | c :: cs, _ :: row => (c == p && row.headD false) :: plainRow p cs row
  | _, _ => [false]

/-- The row for a star in front of a pattern with the row `row`. -/
def starRow : List Char → List Bool → List Bool
  | c :: cs, b :: row =>
    let rest := starRow cs row
    (b || (c != '\n' && rest.headD false)) :: rest
  | _, row => row.take 1

/-- Which suffixes of the text the pattern matches, from the whole text to the empty one. -/
def wildcardRow (pattern text : List Char) : List Bool :=
  pattern.foldr (fun p row => if p = '*' then starRow text row else plainRow p text row)
    (List.replicate text.length false ++ [true])

/-- What compiles the patterns with stars; it may refuse one. -/
class PatternCompiler where
  compiles (pattern : String) : Bool

/-- Whether the whole text matches the pattern. A pattern without stars matches itself alone, and is not compiled. -/
def wildcardMatch [PatternCompiler] (pattern text : String) : Bool :=
  if pattern.toList.contains '*' then
    PatternCompiler.compiles pattern && (wildcardRow pattern.toList text.toList).headD false
  else pattern == text

/-! ### Patterns of a bounded size -/

/-- The size of a compiled pattern: 1040 for a star, 32 for every byte of the other characters, and 128 for the two ends. A star counts much more than a plain character, because it stands for every way to write a character in bytes. -/
def compiledSize (pattern : String) : Nat :=
  let stars := pattern.toList.count '*'
  128 + 1040 * stars + 32 * (pattern.utf8ByteSize - stars)

/-- The patterns that compile in ten mebibytes. -/
instance boundedPatterns : PatternCompiler where
  compiles pattern := compiledSize pattern ≤ 10 * 1024 * 1024

end TwinShell.Text
