import ArityScript.Json.Conversion
import ArityScript.Json.Number
import ArityScript.Json.Reader

/-!
# Exchanging data

The library that JSON is exchanged with: it reads texts strictly and keeps numbers
as integers of 64 bits and as doubles.  The members of an object are kept in the
order of their keys; of two with the same key the later one stays.
-/

namespace ArityScript

namespace Json

/-- Puts a member in its place among members in the order of their keys. -/
def insertMember {ν : Type} (key : List Char) (value : Json ν) :
    List (List Char × Json ν) → List (List Char × Json ν)
  | [] => [(key, value)]
  | (other, kept) :: rest =>
      if key < other then (key, value) :: (other, kept) :: rest
      else if key = other then (key, value) :: rest
      else (other, kept) :: insertMember key value rest

def collectMembers {ν : Type} (members : List (List Char × Json ν)) :
    List (List Char × Json ν) :=
  members.foldl (fun kept member => insertMember member.1 member.2 kept) []

def render (json : Json JsonNumber) : String :=
  String.ofList (json.compactText JsonNumber.text)

/-- Reads a text and gives its literals their numbers. -/
def read? (text : String) : Option (Json JsonNumber) :=
  (parse? text.toList).bind (build? JsonNumber.ofLiteral? collectMembers)

end Json

/-- The library with exact integers and doubles. -/
def JsonLibrary.standard : JsonLibrary where
  Num := JsonNumber
  ofLiteral? := JsonNumber.ofLiteral?
  ofInteger := .integer
  integer? := JsonNumber.integer?
  numberText := JsonNumber.text
  collect := Json.collectMembers
  read? := Json.read?
  write := Json.render

def Value.toJson (v : Value) : Except Error (Json JsonNumber) :=
  JsonLibrary.standard.ofValue v

def parseJson (text : String) : Except Error Value :=
  JsonLibrary.standard.parse text

end ArityScript
