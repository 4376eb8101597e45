import ArityScript.Conversion

/-!
# Definitions and scopes

Names are given as quoted forms: a quoted variable, or a quoted method name.
Whatever is defined or set is bound in the innermost frame of the call.
-/

namespace ArityScript.Builtin

/-- The name that a value gives as a quoted form.  `role` is what the name is
for. -/
def quotedName (role : String) (value : Value) : Except Error String :=
  match value.form?.bind Form.name? with
  | some name => .ok name
  | none => .error (.eval (.ofCause (.notAName role value.render)))

/-- The form of a method's body; a value that is not a form is its own body. -/
def bodyForm : Value → Form
  | .form form => form
  | value => .literal value

/-- Defines a method.  The parts are its name, its parameters and its body. -/
def definition : Native := fun arguments =>
  .attempt (arguments.as (List Value) "parts") fun parts =>
  match parts.dropLast, parts.getLast? with
  | name :: parameters, some body =>
      .attempt (quotedName "method name" name) fun name =>
      .attempt (parameters.mapM (quotedName "parameter")) fun parameters =>
      .define name parameters (bodyForm body) fun method =>
      .assign name method <| .done method
  | _, _ => .failWith (.eval (.inMethod "def" .incompleteDefinition))

def assignment : Native := fun arguments =>
  .attempt (arguments.value "name") fun quoted =>
  .attempt (quotedName "variable name" quoted) fun name =>
  .attempt (arguments.value "value") fun value =>
  .assign name value <| .done value

def scope : Native := fun arguments =>
  .attempt (arguments.as Form "body") fun form =>
  .inScope (.evalOnly form) .finish

end ArityScript.Builtin
