import ArityScript.Text.Bytes
import ArityScript.Text.Width

/-!
# Source snippets

An error that has a place in the source shows a piece of it.  The piece starts
twenty bytes before the place, moved back to a character boundary, and runs for
at most one hundred characters.  A mark stands where something was cut off, and
line breaks are made visible.
-/

namespace ArityScript.Text

def snippetLength : Nat := 100

/-- The bytes a snippet shows before the place it is about. -/
def snippetLead : Nat := 20

def ellipsis : List Char := "[...]".toList

/-- A line feed is shown as an escape, a carriage return not at all. -/
def showLineBreaks : List Char → List Char
  | [] => []
  | '\n' :: rest => '\\' :: 'n' :: showLineBreaks rest
  | '\r' :: rest => showLineBreaks rest
  | c :: rest => c :: showLineBreaks rest

/-- The text from which a snippet around a byte offset is cut. -/
def snippetStart (source : List Char) (offset : Nat) : List Char :=
  dropWidth (offset - snippetLead) source

def markedSnippet (source : List Char) (offset : Nat) : List Char :=
  let start := snippetStart source offset
  let before := if start.length < source.length then ellipsis else []
  let after := if snippetLength < start.length then ellipsis else []
  before ++ start.take snippetLength ++ after

def snippet (source : List Char) (offset : Nat) : List Char :=
  showLineBreaks (markedSnippet source offset)

/-! ## Snippets of bytes -/

/-- A snippet as it is cut out of the bytes of a source. -/
def snippetOfBytes? (bytes : List UInt8) (offset : Nat) : Option (List Char) :=
  (boundaryUpTo? bytes (min (offset - snippetLead) bytes.length)).bind fun start =>
    (textFrom? bytes start).map fun rest =>
      let shown := rest.take snippetLength
      let before := if 0 < start then ellipsis else []
      let after := if start + width shown < bytes.length then ellipsis else []
      showLineBreaks (before ++ shown ++ after)

end ArityScript.Text
