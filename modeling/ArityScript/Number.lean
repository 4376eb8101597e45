/-!
# Numbers

Numbers are 64-bit signed integers.  Arithmetic is done on the integers and
fails where the result does not fit; nothing wraps around.  Their written form
is decimal, and a number word is read as the integer it denotes.
-/

namespace ArityScript

abbrev Number := Int64

namespace Number

def least : Int := -9223372036854775808

def greatest : Int := 9223372036854775807

theorem least_le_toInt (n : Number) : least ≤ n.toInt :=
  Int64.le_toInt n

theorem toInt_le_greatest (n : Number) : n.toInt ≤ greatest := by
  have hlt := Int64.toInt_lt n
  unfold greatest
  omega

def ofInt? (value : Int) : Option Number :=
  if least ≤ value ∧ value ≤ greatest then some (Int64.ofInt value) else none

theorem ofInt?_eq_some_iff {value : Int} {n : Number} :
    ofInt? value = some n ↔ n.toInt = value := by
  unfold ofInt?
  constructor
  · intro h
    split at h
    · next hrange =>
        obtain rfl := Option.some.inj h
        obtain ⟨hleast, hgreatest⟩ := hrange
        unfold least at hleast
        unfold greatest at hgreatest
        apply Int64.toInt_ofInt_of_le <;> omega
    · simp at h
  · intro h
    subst h
    rw [if_pos ⟨least_le_toInt n, toInt_le_greatest n⟩, Int64.ofInt_toInt]

theorem ofInt?_toInt (n : Number) : ofInt? n.toInt = some n :=
  ofInt?_eq_some_iff.2 rfl

def decimalText : Int → List Char
  | .ofNat n => Nat.toDigits 10 n
  | .negSucc n => '-' :: Nat.toDigits 10 (n + 1)

def text (n : Number) : List Char :=
  decimalText n.toInt

def render (n : Number) : String :=
  String.ofList n.text

/-! ## Number words -/

def unsigned : List Char → List Char
  | '-' :: rest => rest
  | word => word

/-- Whether a word is an optional minus sign and one or more digits. -/
def isNumeral (word : List Char) : Bool :=
  !(unsigned word).isEmpty && (unsigned word).all Char.isDigit

def startsNumeral (word : List Char) : Bool :=
  (unsigned word).head?.any Char.isDigit

def numeralValue (word : List Char) : Int :=
  let magnitude : Int := Nat.ofDigitChars 10 (unsigned word) 0
  if word.head? = some '-' then -magnitude else magnitude

end Number

end ArityScript
