import ArityScript.Program

/-!
# Binding arguments

The argument forms of a call are matched with the parameters of a signature
from left to right.  A flag and the form after it give an option its value; the
other forms fill the required parameters in order, and what is left over goes
to the rest parameter.  Each value form is evaluated when its turn comes, and a
form that the signature does not admit is refused before it is evaluated.

Evaluation is a parameter of the binding rule and may depend on a state.
-/

namespace ArityScript

namespace Binding

/-- What has been bound: the required parameters without an argument, the
arguments by name, and the arguments left over, the last one first. -/
structure Partial where
  unfilled : List String
  bound : Arguments
  surplus : List Value

/-- Binds the arguments of a call from left to right, up to the first failure. -/
def collect {σ : Type} (method : String) (signature : Signature)
    (evaluate : Form → σ → Except Error Value × σ) :
    List Form → Partial → σ → Except Error Partial × σ
  | [], made, state => (.ok made, state)
  | .flag name :: rest, made, state =>
      if signature.declares name then
        match rest with
        | [] => (.error (.eval (.inMethod method (.flagWithoutValue name method))), state)
        | form :: rest =>
            match evaluate form state with
            | (.error error, state) => (.error error, state)
            | (.ok value, state) =>
                collect method signature evaluate rest
                  { made with bound := made.bound.insert name value } state
      else (.error (.eval (.inMethod method (.unknownOption name method))), state)
  | form :: rest, made, state =>
      match made.unfilled with
      | parameter :: unfilled =>
          match evaluate form state with
          | (.error error, state) => (.error error, state)
          | (.ok value, state) =>
              collect method signature evaluate rest
                { made with unfilled, bound := made.bound.insert parameter value } state
      | [] =>
          if signature.rest.isSome then
            match evaluate form state with
            | (.error error, state) => (.error error, state)
            | (.ok value, state) =>
                collect method signature evaluate rest
                  { made with surplus := value :: made.surplus } state
          else
            (.error (.eval (.inMethod method (.tooManyArguments method signature.arity))),
              state)

def fillDefault (bound : Arguments) (option : OptionalParameter) : Arguments :=
  match bound.find? option.name with
  | some _ => bound
  | none => bound.insert option.name option.default

/-- The arguments of a call once all its forms are bound: options take their
defaults and the rest parameter what is left over. -/
def complete (method : String) (signature : Signature) (made : Partial) :
    Except Error Arguments :=
  match made.unfilled with
  | missing :: _ =>
      .error (.eval (.inMethod method (.unfilledParameter method signature.arity missing)))
  | [] =>
      let bound := signature.optional.foldl fillDefault made.bound
      match signature.rest with
      | none => .ok bound
      | some name => .ok (bound.insert name (.list made.surplus.reverse))

end Binding

def bindArguments {σ : Type} (method : String) (signature : Signature)
    (evaluate : Form → σ → Except Error Value × σ) (forms : List Form) (state : σ) :
    Except Error Arguments × σ :=
  match Binding.collect method signature evaluate forms
      ⟨signature.required, .empty, []⟩ state with
  | (.error error, state) => (.error error, state)
  | (.ok made, state) => (Binding.complete method signature made, state)

end ArityScript
