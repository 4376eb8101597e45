import ArityScript.Json
import Mathlib.Algebra.Order.Field.Rat

/-!
# The grammar of JSON

A text is JSON if it can be derived by the rules of this module, which also say
what it denotes: a value whose numbers are left as they are written, and whose
objects have their members in the order of the text.  The rules for arrays and
objects are those for parts between commas.
-/

namespace ArityScript.Json

def Blank (text : List Char) : Prop :=
  ∀ c ∈ text, c = ' ' ∨ c = '\n' ∨ c = '\t' ∨ c = '\r'

theorem blank_nil : Blank [] := by
  intro c hc
  cases hc

def Digits (text : List Char) : Prop :=
  ∀ c ∈ text, c.isDigit = true

/-! ## Numbers -/

/-- Zero, or digits that do not start with zero. -/
inductive Whole : List Char → Prop where
  | zero : Whole ['0']
  | digits {first : Char} {rest : List Char} :
      first ≠ '0' → Digits (first :: rest) → Whole (first :: rest)

/-- A fraction, if there is one, and its digits. -/
inductive Fraction : List Char → List Char → Prop where
  | none : Fraction [] []
  | digits {digits : List Char} : digits ≠ [] → Digits digits → Fraction ('.' :: digits) digits

/-- The sign of an exponent, and whether it is a minus. -/
inductive Sign : List Char → Bool → Prop where
  | none : Sign [] false
  | plus : Sign ['+'] false
  | minus : Sign ['-'] true

/-- An exponent, if there is one, and its value. -/
inductive Exponent : List Char → Option Int → Prop where
  | none : Exponent [] none
  | digits {mark : Char} {sign digits : List Char} {negative : Bool} :
      mark = 'e' ∨ mark = 'E' → Sign sign negative → digits ≠ [] → Digits digits →
        Exponent (mark :: sign ++ digits) (some (signed negative (Nat.ofDigitChars 10 digits 0)))

def minusText (negative : Bool) : List Char :=
  if negative then ['-'] else []

inductive Numeral : List Char → Literal → Prop where
  | parts {negative : Bool} {whole fractionText fraction exponentText : List Char}
      {exponent : Option Int} :
      Whole whole → Fraction fractionText fraction → Exponent exponentText exponent →
        Numeral (minusText negative ++ whole ++ fractionText ++ exponentText)
          ⟨negative, whole, fraction, exponent⟩

/-- The number that is written, without its sign. -/
def Literal.magnitude (literal : Literal) : ℚ :=
  (Nat.ofDigitChars 10 (literal.whole ++ literal.fraction) 0 : Nat) *
    10 ^ (literal.exponent.getD 0 - literal.fraction.length)

/-! ## Strings -/

/-- The letters that stand for a character after a backslash. -/
def escapes : List (Char × Char) :=
  [('"', '"'), ('\\', '\\'), ('/', '/'), ('b', '\x08'), ('f', '\x0c'), ('n', '\n'),
    ('r', '\r'), ('t', '\t')]

/-- A hexadecimal digit, in lower or upper case, and its value. -/
def HexDigit (c : Char) (value : Nat) : Prop :=
  "0123456789abcdef".toList[value]? = some c ∨ "0123456789ABCDEF".toList[value]? = some c

/-- Four hexadecimal digits, and the code unit that they denote. -/
inductive HexUnit : List Char → Nat → Prop where
  | mk {a b c d : Char} {i j k l : Nat} :
      HexDigit a i → HexDigit b j → HexDigit c k → HexDigit d l →
        HexUnit [a, b, c, d] (((i * 16 + j) * 16 + k) * 16 + l)

/-- The first one of a pair of code units. -/
def Lead (unit : Nat) : Prop := 0xD800 ≤ unit ∧ unit < 0xDC00

/-- The second one of a pair of code units. -/
def Trail (unit : Nat) : Prop := 0xDC00 ≤ unit ∧ unit < 0xE000

/-- The inside of a string, and the characters that it denotes.  A surrogate occurs
only as a part of a pair. -/
inductive Inside : List Char → List Char → Prop where
  | nil : Inside [] []
  | plain {c : Char} {text chars : List Char} :
      0x20 ≤ c.toNat → c ≠ '"' → c ≠ '\\' → Inside text chars → Inside (c :: text) (c :: chars)
  | escaped {letter c : Char} {text chars : List Char} :
      (letter, c) ∈ escapes → Inside text chars → Inside ('\\' :: letter :: text) (c :: chars)
  | unit {hex text chars : List Char} {unit : Nat} :
      HexUnit hex unit → ¬Lead unit → ¬Trail unit → Inside text chars →
        Inside ('\\' :: 'u' :: hex ++ text) (Char.ofNat unit :: chars)
  | pair {first second text chars : List Char} {lead trail : Nat} :
      HexUnit first lead → Lead lead → HexUnit second trail → Trail trail → Inside text chars →
        Inside ('\\' :: 'u' :: first ++ '\\' :: 'u' :: second ++ text)
          (Char.ofNat (0x10000 + (lead - 0xD800) * 0x400 + (trail - 0xDC00)) :: chars)

/-! ## Values -/

/-- One or more parts with commas between them. -/
inductive Parts {α : Type} (part : List Char → α → Prop) : List Char → List α → Prop where
  | last {before text after : List Char} {item : α} :
      Blank before → part text item → Blank after → Parts part (before ++ text ++ after) [item]
  | cons {before text after rest : List Char} {item : α} {items : List α} :
      Blank before → part text item → Blank after → Parts part rest items →
        Parts part (before ++ text ++ after ++ ',' :: rest) (item :: items)

/-- A key and a value. -/
inductive Member (value : List Char → Json Literal → Prop) :
    List Char → List Char × Json Literal → Prop where
  | mk {keyText key before after text : List Char} {json : Json Literal} :
      Inside keyText key → Blank before → Blank after → value text json →
        Member value ('"' :: keyText ++ '"' :: before ++ ':' :: after ++ text) (key, json)

/-- A value without space around it. -/
inductive Written : List Char → Json Literal → Prop where
  | null : Written "null".toList .null
  | true : Written "true".toList (.bool true)
  | false : Written "false".toList (.bool false)
  | number {text : List Char} {literal : Literal} :
      Numeral text literal → Written text (.number literal)
  | string {text chars : List Char} :
      Inside text chars → Written ('"' :: text ++ ['"']) (.string chars)
  | emptyArray {text : List Char} : Blank text → Written ('[' :: text ++ [']']) (.array [])
  | array {text : List Char} {items : List (Json Literal)} :
      Parts Written text items → Written ('[' :: text ++ [']']) (.array items)
  | emptyObject {text : List Char} :
      Blank text → Written ('\x7b' :: text ++ ['\x7d']) (.object [])
  | object {text : List Char} {members : List (List Char × Json Literal)} :
      Parts (Member Written) text members → Written ('\x7b' :: text ++ ['\x7d']) (.object members)

/-- A whole text. -/
inductive Document : List Char → Json Literal → Prop where
  | mk {before text after : List Char} {json : Json Literal} :
      Blank before → Written text json → Blank after → Document (before ++ text ++ after) json

section

variable {ν : Type}

/-! ## Nesting -/

mutual

/-- The most levels of arrays and objects in each other. -/
def nesting : Json ν → Nat
  | .array items => nestingOfAll items + 1
  | .object members => nestingOfMembers members + 1
  | _ => 0

def nestingOfAll : List (Json ν) → Nat
  | [] => 0
  | item :: rest => max item.nesting (nestingOfAll rest)

def nestingOfMembers : List (List Char × Json ν) → Nat
  | [] => 0
  | (_, value) :: rest => max value.nesting (nestingOfMembers rest)

end

theorem nestingOfAll_le {items : List (Json ν)} {levels : Nat} :
    nestingOfAll items ≤ levels ↔ ∀ item ∈ items, item.nesting ≤ levels := by
  induction items with
  | nil => simp [nestingOfAll]
  | cons item rest ih => rw [nestingOfAll, Nat.max_le, ih, List.forall_mem_cons]

theorem nestingOfMembers_le {members : List (List Char × Json ν)} {levels : Nat} :
    nestingOfMembers members ≤ levels ↔ ∀ member ∈ members, member.2.nesting ≤ levels := by
  induction members with
  | nil => simp [nestingOfMembers]
  | cons member rest ih =>
      obtain ⟨key, value⟩ := member
      rw [nestingOfMembers, Nat.max_le, ih, List.forall_mem_cons]

/-! ## Numbers in a value -/

mutual

/-- All numbers in a value, those in objects included. -/
def numbers : Json ν → List ν
  | .number n => [n]
  | .array items => numbersOfAll items
  | .object members => numbersOfMembers members
  | .null | .bool _ | .string _ => []

def numbersOfAll : List (Json ν) → List ν
  | [] => []
  | item :: rest => item.numbers ++ numbersOfAll rest

def numbersOfMembers : List (List Char × Json ν) → List ν
  | [] => []
  | (_, value) :: rest => value.numbers ++ numbersOfMembers rest

end

end

theorem Parts.forall_mem {α : Type} {part : List Char → α → Prop} {holds : α → Prop}
    {text : List Char} {items : List α}
    (hholds : ∀ text item, part text item → holds item) (hparts : Parts part text items) :
    ∀ item ∈ items, holds item := by
  induction hparts with
  | last _ hpart _ =>
      intro item hmem
      obtain rfl := List.mem_singleton.1 hmem
      exact hholds _ _ hpart
  | cons _ hpart _ _ ih =>
      intro item hmem
      rcases List.mem_cons.1 hmem with rfl | hmem
      · exact hholds _ _ hpart
      · exact ih item hmem

theorem Member.exists_written {text : List Char} {member : List Char × Json Literal}
    (hmember : Member Written text member) : ∃ text, Written text member.2 := by
  cases hmember with
  | mk _ _ _ hwritten => exact ⟨_, hwritten⟩

mutual

/-- All numbers in a value that is written are written as numerals. -/
theorem Written.exists_numeral : ∀ {json : Json Literal} {text : List Char},
    Written text json → ∀ literal ∈ json.numbers, ∃ text, Numeral text literal
  | .null, _, _ | .bool _, _, _ | .string _, _, _ => by simp [numbers]
  | .number literal, _, .number hnumeral => by
      rw [numbers]
      intro found hmem
      obtain rfl := List.mem_singleton.1 hmem
      exact ⟨_, hnumeral⟩
  | .array _, _, .emptyArray _ => by simp [numbers, numbersOfAll]
  | .array items, _, .array hparts =>
      exists_numeral_of_all (hparts.forall_mem fun text _ hwritten => ⟨text, hwritten⟩)
  | .object _, _, .emptyObject _ => by simp [numbers, numbersOfMembers]
  | .object members, _, .object hparts =>
      exists_numeral_of_members (hparts.forall_mem fun _ _ hmember => hmember.exists_written)

theorem exists_numeral_of_all : ∀ {items : List (Json Literal)},
    (∀ item ∈ items, ∃ text, Written text item) →
      ∀ literal ∈ numbersOfAll items, ∃ text, Numeral text literal
  | [], _ => by simp [numbersOfAll]
  | item :: rest, hwritten => by
      obtain ⟨⟨text, hitem⟩, hrest⟩ := List.forall_mem_cons.1 hwritten
      rw [numbersOfAll, List.forall_mem_append]
      exact ⟨hitem.exists_numeral, exists_numeral_of_all hrest⟩

theorem exists_numeral_of_members : ∀ {members : List (List Char × Json Literal)},
    (∀ member ∈ members, ∃ text, Written text member.2) →
      ∀ literal ∈ numbersOfMembers members, ∃ text, Numeral text literal
  | [], _ => by simp [numbersOfMembers]
  | (key, value) :: rest, hwritten => by
      obtain ⟨⟨text, hvalue⟩, hrest⟩ := List.forall_mem_cons.1 hwritten
      rw [numbersOfMembers, List.forall_mem_append]
      exact ⟨hvalue.exists_numeral, exists_numeral_of_members hrest⟩

end

theorem Document.exists_numeral {chars : List Char} {json : Json Literal}
    (hdocument : Document chars json) : ∀ literal ∈ json.numbers, ∃ text, Numeral text literal := by
  cases hdocument with
  | mk _ hwritten _ => exact hwritten.exists_numeral

end ArityScript.Json
