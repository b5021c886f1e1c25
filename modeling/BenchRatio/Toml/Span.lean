/-!
# Places in a document

What is wrong with a document is shown together with the line where it stands.

* `Span`: a stretch of a document.
* `Located`: something read from a document, with its stretch.
* `Span.excerpt`: a message with the line on which a stretch starts.
-/

namespace BenchRatio.Toml

/-- A stretch of a document, given by the characters from its start on and by those after it. -/
structure Span where
  start : List Char
  stop : List Char

/-- Something read from a document, with the stretch where it stands. -/
structure Located (α : Type) where
  span : Span
  value : α

namespace Span

/-- The stretch from the start of one to the end of another. -/
def through (a b : Span) : Span := ⟨a.start, b.stop⟩

/-- The size of characters in bytes. -/
def byteSize (cs : List Char) : Nat := cs.foldl (fun n c => n + c.utf8Size) 0

/-- The characters before a stretch of a document. -/
def before (document : List Char) (s : Span) : List Char :=
  document.take (document.length - s.start.length)

/-- The line on which a stretch starts, counted from one. -/
def line (document : List Char) (s : Span) : Nat := (s.before document).count '\n' + 1

/-- The characters of that line before the stretch. -/
def lead (document : List Char) (s : Span) : List Char :=
  ((s.before document).reverse.takeWhile (· ≠ '\n')).reverse

/-- The whole line on which a stretch starts. -/
def lineText (document : List Char) (s : Span) : List Char :=
  s.lead document ++ s.start.takeWhile (· ≠ '\n')

/-- The number of marks under a stretch: its size in bytes, but at least one, and no more than the
line has bytes after as many as there are characters before the stretch. -/
def markCount (document : List Char) (s : Span) : Nat :=
  max 1 (min (byteSize s.start - byteSize s.stop)
    (byteSize (s.lineText document) - (s.lead document).length))

/-- A message after the line on which a stretch of a document starts, with marks under the
stretch. -/
def excerpt (document : List Char) (s : Span) (message : String) : String :=
  let column := (s.lead document).length
  let number := toString (s.line document)
  let blanks (n : Nat) : String := String.ofList (List.replicate n ' ')
  let gutter := blanks (number.length + 1) ++ "|"
  s!"TOML parse error at line {number}, column {column + 1}\n{gutter}\n{number} | " ++
    String.ofList (s.lineText document) ++ "\n" ++ gutter ++ blanks (column + 1) ++
    String.ofList (List.replicate (s.markCount document) '^') ++ "\n" ++ message ++ "\n"

end Span

end BenchRatio.Toml
