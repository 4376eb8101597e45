import ArityScript.Range

/-!
# Values and forms

A form is what a source text denotes, and a value is what a form evaluates to.
The two types refer to each other: a literal form holds a value, and quoting
turns a form into a value.

A method is a value too.  The value does not hold the method itself but refers
to it, by an identity and by the name under which the method was made; two
method values are equal when they refer to the same method.
-/

namespace ArityScript

/-- A reference to a method: its identity and its own name. -/
structure MethodRef where
  id : Nat
  name : String
deriving DecidableEq, Repr, Inhabited

mutual

inductive Value where
  | number (n : Number)
  | string (s : String)
  | bool (b : Bool)
  | list (items : List Value)
  | range (r : Range)
  /-- A value without content, whose meaning is up to the method that gets it. -/
  | placeholder
  | method (ref : MethodRef)
  | form (f : Form)

inductive Form where
  | literal (v : Value)
  /-- A name that stands for its value; a method is not called this way. -/
  | variable (name : String)
  | quoted (f : Form)
  | call (method : String) (arguments : List Form)
  /-- The mark `--name` of an option, followed among the arguments of a call
  by the form of its value. -/
  | flag (name : String)

end

instance : Inhabited Value := ⟨.placeholder⟩

instance : Inhabited Form := ⟨.literal .placeholder⟩

/-! ## Equality -/

mutual

def Value.beq : Value → Value → Bool
  | .number a, .number b => a == b
  | .string a, .string b => a == b
  | .bool a, .bool b => a == b
  | .list as, .list bs => Value.beqList as bs
  | .range a, .range b => a == b
  | .placeholder, .placeholder => true
  | .method a, .method b => a == b
  | .form a, .form b => Form.beq a b
  | _, _ => false

def Form.beq : Form → Form → Bool
  | .literal a, .literal b => Value.beq a b
  | .variable a, .variable b => a == b
  | .quoted a, .quoted b => Form.beq a b
  | .call a as, .call b bs => a == b && Form.beqList as bs
  | .flag a, .flag b => a == b
  | _, _ => false

def Value.beqList : List Value → List Value → Bool
  | [], [] => true
  | a :: as, b :: bs => Value.beq a b && Value.beqList as bs
  | _, _ => false

def Form.beqList : List Form → List Form → Bool
  | [], [] => true
  | a :: as, b :: bs => Form.beq a b && Form.beqList as bs
  | _, _ => false

end

mutual

theorem Value.beq_iff : ∀ a b : Value, a.beq b = true ↔ a = b
  | .number _, b => by cases b <;> simp [Value.beq]
  | .string _, b => by cases b <;> simp [Value.beq]
  | .bool _, b => by cases b <;> simp [Value.beq]
  | .list as, b => by cases b <;> simp [Value.beq, Value.beqList_iff as]
  | .range _, b => by cases b <;> simp [Value.beq]
  | .placeholder, b => by cases b <;> simp [Value.beq]
  | .method _, b => by cases b <;> simp [Value.beq]
  | .form f, b => by cases b <;> simp [Value.beq, Form.beq_iff f]

theorem Form.beq_iff : ∀ a b : Form, a.beq b = true ↔ a = b
  | .literal v, b => by cases b <;> simp [Form.beq, Value.beq_iff v]
  | .variable _, b => by cases b <;> simp [Form.beq]
  | .quoted f, b => by cases b <;> simp [Form.beq, Form.beq_iff f]
  | .call _ as, b => by cases b <;> simp [Form.beq, Form.beqList_iff as]
  | .flag _, b => by cases b <;> simp [Form.beq]

theorem Value.beqList_iff :
    ∀ as bs : List Value, Value.beqList as bs = true ↔ as = bs
  | [], bs => by cases bs <;> simp [Value.beqList]
  | a :: as, bs => by
      cases bs <;> simp [Value.beqList, Value.beq_iff a, Value.beqList_iff as]

theorem Form.beqList_iff :
    ∀ as bs : List Form, Form.beqList as bs = true ↔ as = bs
  | [], bs => by cases bs <;> simp [Form.beqList]
  | a :: as, bs => by
      cases bs <;> simp [Form.beqList, Form.beq_iff a, Form.beqList_iff as]

end

instance : DecidableEq Value := fun a b =>
  decidable_of_iff _ (Value.beq_iff a b)

instance : DecidableEq Form := fun a b =>
  decidable_of_iff _ (Form.beq_iff a b)

/-! ## Kinds and views -/

/-- The name of a value's kind, as error messages use it. -/
def Value.typeName : Value → String
  | .number _ => "number"
  | .string _ => "string"
  | .bool _ => "boolean"
  | .list _ => "list"
  | .range _ => "range"
  | .placeholder => "placeholder"
  | .method _ => "method"
  | .form _ => "form"

def Value.method? : Value → Option MethodRef
  | .method ref => some ref
  | _ => none

def Value.form? : Value → Option Form
  | .form f => some f
  | _ => none

/-- The name that a form stands for when it is quoted: a variable's name, or
the method's name of a call without arguments. -/
def Form.name? : Form → Option String
  | .variable name => some name
  | .call method [] => some method
  | _ => none

end ArityScript
