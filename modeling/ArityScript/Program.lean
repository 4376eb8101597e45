import ArityScript.Error
import ArityScript.NameMap
import ArityScript.Signature

/-!
# Native programs

The body of a native method is a program: it looks at its arguments and acts on
the call in progress, and nothing else.  What it may do is fixed by the
constructors of `Program`: evaluate a form, open a scope, bind and look up
names, define a method, and ask for the name of the call and the number of
frames.  A program goes on with the result of an evaluation or of a scope,
which may be a failure.

A failure is an error of the language, which passes through the call unchanged,
or the method's own, which the call wraps.
-/

namespace ArityScript

abbrev Arguments := NameMap Value

inductive Failure where
  | error (error : Error)
  | host (failure : HostFailure)
deriving DecidableEq, Repr

abbrev Outcome := Except Failure Value

inductive Program where
  | finish (outcome : Outcome)
  | eval (form : Form) (next : Outcome → Program)
  /-- Runs a program with a fresh frame as the innermost one. -/
  | inScope (body : Program) (next : Outcome → Program)
  | assign (name : String) (value : Value) (next : Program)
  | lookup (name : String) (next : Option Value → Program)
  /-- Makes a method of a form that is evaluated over the present frames. -/
  | define (name : String) (parameters : List String) (body : Form)
      (next : Value → Program)
  | frameCount (next : Nat → Program)
  | callName (next : String → Program)

namespace Program

def done (value : Value) : Program :=
  .finish (.ok value)

def fail (failure : Failure) : Program :=
  .finish (.error failure)

def failWith (error : Error) : Program :=
  .fail (.error error)

/-- Goes on with the value of an outcome and ends with its failure. -/
def andThen (next : Value → Program) : Outcome → Program
  | .ok value => next value
  | .error failure => .fail failure

/-- Goes on with a result and ends with its error. -/
def attempt {α : Type} (result : Except Error α) (next : α → Program) : Program :=
  match result with
  | .ok value => next value
  | .error error => .failWith error

def ofExcept (result : Except Error Value) : Program :=
  attempt result done

def evalOnly (form : Form) : Program :=
  .eval form .finish

/-- Evaluates a form in a fresh frame in which one name is bound. -/
def evalWith (name : String) (value : Value) (form : Form)
    (next : Outcome → Program) : Program :=
  .inScope (.assign name value (.evalOnly form)) next

end Program

abbrev Native := Arguments → Program

end ArityScript
