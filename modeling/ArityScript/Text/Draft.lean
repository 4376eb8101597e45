import ArityScript.Text.Cluster
import ArityScript.Text.Width

/-!
# Drafts of lines

A line that is read may hold backspaces, each of which erases the cluster before
it; one without a cluster before it is ignored.  The size of a cluster is kept
in one byte: of a cluster of 256 bytes or more, only as much is erased as the
size modulo 256 tells, and a character that would be cut in two makes the line
unreadable.
-/

namespace ArityScript.Text

def backspace : Char := '\x08'

def sizeBound : Nat := 256

/-- A line up to some character: its text with the last character first, and the
sizes of the clusters that can be erased, the last one first. -/
structure Draft where
  text : List Char
  sizes : List Nat

/-- Drops characters of a number of bytes in all, unless that ends inside a
character. -/
def dropBytes? : (bytes : Nat) → List Char → Option (List Char)
  | 0, chars => some chars
  | _ + 1, [] => none
  | bytes + 1, c :: rest =>
      if c.utf8Size ≤ bytes + 1 then dropBytes? (bytes + 1 - c.utf8Size) rest else none

namespace Draft

def append (draft : Draft) (cluster : List Char) : Draft :=
  { text := cluster.reverse ++ draft.text
    sizes := width cluster % sizeBound :: draft.sizes }

def erase? (draft : Draft) : Option Draft :=
  match draft.sizes with
  | [] => some draft
  | size :: sizes => (dropBytes? size draft.text).map fun text => { text, sizes }

/-- Goes on with a cluster, which is added or erases the one before. -/
def read? (draft : Draft) (cluster : List Char) : Option Draft :=
  if cluster = [backspace] then draft.erase? else some (draft.append cluster)

def readAll? (draft : Draft) : List (List Char) → Option Draft
  | [] => some draft
  | cluster :: rest => (draft.read? cluster).bind fun draft => draft.readAll? rest

end Draft

/-- A line after its backspaces have been obeyed, if it can be read. -/
def revise? (line : List Char) : Option (List Char) :=
  (Draft.readAll? ⟨[], []⟩ (clusters line)).map fun draft => draft.text.reverse

end ArityScript.Text
