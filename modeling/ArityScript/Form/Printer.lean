import ArityScript.Text.Escape
import ArityScript.Value

/-!
# The text of values and forms

A form is written with every call in parentheses, so its text does not depend
on any method's signature.  Strings are written as literals; a quote mark
stands before a quoted form and before a value that is a form.
-/

namespace ArityScript

mutual

def Value.text : Value → List Char
  | .number n => n.text
  | .string s => Text.literal s.toList
  | .bool b => if b then "true".toList else "false".toList
  | .list items => '[' :: Value.textItems items ++ [']']
  | .range r => r.text
  | .placeholder => ['_']
  | .method ref => "#<method:".toList ++ ref.name.toList ++ ['>']
  | .form f => '\'' :: Form.text f

def Form.text : Form → List Char
  | .literal v => Value.text v
  | .variable name => name.toList
  | .quoted f => '\'' :: Form.text f
  | .call method arguments =>
      '(' :: method.toList ++ Form.textArguments arguments ++ [')']
  | .flag name => '-' :: '-' :: name.toList

def Value.textItems : List Value → List Char
  | [] => []
  | [v] => Value.text v
  | v :: w :: rest => Value.text v ++ [',', ' '] ++ Value.textItems (w :: rest)

/-- The arguments of a call, a space before each. -/
def Form.textArguments : List Form → List Char
  | [] => []
  | f :: rest => ' ' :: Form.text f ++ Form.textArguments rest

end

theorem Value.text_list (items : List Value) :
    (Value.list items).text = '[' :: Value.textItems items ++ [']'] := rfl

theorem Value.text_method (ref : MethodRef) :
    (Value.method ref).text = "#<method:".toList ++ ref.name.toList ++ ['>'] := rfl

theorem Value.text_form (f : Form) : (Value.form f).text = '\'' :: f.text := rfl

def Value.render (v : Value) : String :=
  String.ofList v.text

def Form.render (f : Form) : String :=
  String.ofList f.text

end ArityScript
