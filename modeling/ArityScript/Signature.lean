import ArityScript.Value

/-!
# Signatures

A method declares its parameters: required ones in order, options with the
value they take when they are not given, and possibly a rest parameter for all
further arguments.  The reader of forms finds the extent of a call from the
signature, and binding assigns the arguments by it.
-/

namespace ArityScript

/-- An option and the value it takes when its flag is left out. -/
structure OptionalParameter where
  name : String
  default : Value
deriving DecidableEq, Inhabited

structure Signature where
  required : List String
  optional : List OptionalParameter
  rest : Option String
deriving DecidableEq, Inhabited

namespace Signature

def ofRequired (names : List String) : Signature :=
  ⟨names, [], none⟩

def ofRest (name : String) : Signature :=
  ⟨[], [], some name⟩

def withOption (signature : Signature) (name : String) (default : Value) : Signature :=
  { signature with optional := signature.optional ++ [⟨name, default⟩] }

def declares (signature : Signature) (flag : String) : Bool :=
  signature.optional.any (fun option => option.name == flag)

def arity (signature : Signature) : Nat :=
  signature.required.length

/-- Whether a call that has `count` positional arguments still takes more. -/
def isPending (signature : Signature) (count : Nat) : Bool :=
  decide (count < signature.arity) || signature.rest.isSome

end Signature

/-- The signatures of the methods that are visible under each name. -/
abbrev Signatures := String → Option Signature

end ArityScript
