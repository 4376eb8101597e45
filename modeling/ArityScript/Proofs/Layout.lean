import ArityScript.Form.Reader

/-!
# Layouts

A layout is a form together with the parentheses in which it is written: it has
a token for every token of a source, so that a form has many layouts.  Reading
a source forgets the redundant parentheses and keeps the form.

The layouts of a form are all its parenthesizations.  Not every one of them
denotes the form, because a call without parentheses takes whatever it still
may take.  `Layout.Delimited` says that no call does so, and
`Form.ArityConsistent` which forms have such a layout at all.
-/

namespace ArityScript

/-- Arguments are flags with the argument after them, and other arguments. -/
@[elab_as_elim]
theorem arguments_induction {α : Type} (isFlag : α → Bool) {motive : List α → Prop}
    (nil : motive [])
    (dangling : ∀ flag, isFlag flag = true → motive [flag])
    (option : ∀ flag value rest, isFlag flag = true → motive rest →
      motive (flag :: value :: rest))
    (positional : ∀ argument rest, isFlag argument = false → motive rest →
      motive (argument :: rest)) :
    ∀ arguments, motive arguments
  | [] => nil
  | argument :: rest => by
      cases hflag : isFlag argument with
      | false =>
          exact positional argument rest hflag
            (arguments_induction isFlag nil dangling option positional rest)
      | true =>
          cases rest with
          | nil => exact dangling argument hflag
          | cons value rest =>
              exact option argument value rest hflag
                (arguments_induction isFlag nil dangling option positional rest)

/-- Induction on forms, with the hypothesis for every argument of a call.  The
values of literals are left alone. -/
@[elab_as_elim]
theorem Form.induction_on {motive : Form → Prop}
    (literal : ∀ v, motive (.literal v))
    (named : ∀ name, motive (.variable name))
    (quoted : ∀ f, motive f → motive (.quoted f))
    (call : ∀ method arguments, (∀ f ∈ arguments, motive f) →
      motive (.call method arguments))
    (flag : ∀ name, motive (.flag name)) : ∀ f, motive f
  | .literal v => literal v
  | .variable name => named name
  | .quoted f => quoted f (Form.induction_on literal named quoted call flag f)
  | .call method arguments => call method arguments fun f _ =>
      Form.induction_on literal named quoted call flag f
  | .flag name => flag name

def Form.isFlag : Form → Bool
  | .flag _ => true
  | _ => false

theorem Form.eq_flag_of_isFlag {f : Form} (hflag : f.isFlag = true) :
    ∃ name, f = .flag name := by
  cases f with
  | flag name => exact ⟨name, rfl⟩
  | _ => simp [Form.isFlag] at hflag

theorem Form.ne_flag_of_isFlag {f : Form} (hflag : f.isFlag = false) (name : String) :
    f ≠ .flag name := by
  rintro rfl
  simp [Form.isFlag] at hflag

/-- The token that a literal value is written as. -/
def Value.tokenKind? : Value → Option TokenKind
  | .number n => some (.number n)
  | .string s => some (.string s)
  | .bool b => some (.bool b)
  | _ => none

/-- A form with its parentheses. -/
inductive Layout where
  | literal (v : Value)
  | variable (name : String)
  | flag (name : String)
  /-- A quote mark directly before a method's name. -/
  | quotedName (method : String)
  | quoted (inner : Layout)
  | call (method : String) (arguments : List Layout)
  | group (inner : Layout)

namespace Layout

mutual

def form : Layout → Form
  | .literal v => .literal v
  | .variable name => .variable name
  | .flag name => .flag name
  | .quotedName method => .quoted (.call method [])
  | .quoted inner => .quoted inner.form
  | .call method arguments => .call method (forms arguments)
  | .group inner => inner.form

def forms : List Layout → List Form
  | [] => []
  | layout :: rest => layout.form :: forms rest

end

mutual

def kinds : Layout → List TokenKind
  | .literal v => v.tokenKind?.toList
  | .variable name => [.identifier name]
  | .flag name => [.flag name]
  | .quotedName method => [.quote, .identifier method]
  | .quoted inner => .quote :: inner.kinds
  | .call method arguments => .identifier method :: kindsOfAll arguments
  | .group inner => .opening :: (inner.kinds ++ [.closing])

def kindsOfAll : List Layout → List TokenKind
  | [] => []
  | layout :: rest => layout.kinds ++ kindsOfAll rest

end

mutual

/-- The levels of nesting that it takes to read a layout. -/
def depth : Layout → Nat
  | .quoted inner => inner.depth + 1
  | .call _ arguments => depthOfAll arguments + 1
  | .group inner => inner.depth + 1
  | _ => 1

def depthOfAll : List Layout → Nat
  | [] => 0
  | layout :: rest => max layout.depth (depthOfAll rest)

end

def isCall : Layout → Bool
  | .call .. => true
  | _ => false

def isFlag : Layout → Bool
  | .flag _ => true
  | _ => false

theorem eq_flag_of_isFlag {layout : Layout} (hflag : layout.isFlag = true) :
    ∃ name, layout = .flag name := by
  cases layout with
  | flag name => exact ⟨name, rfl⟩
  | _ => simp [isFlag] at hflag

end Layout

/-! ## Forms that have a layout -/

mutual

/-- Literals can be written, variables name no method, and calls have the
arguments that their method takes.  A quote may hold a bare method name. -/
def Form.ArityConsistent (signatures : Signatures) : Form → Prop
  | .literal v => v.tokenKind?.isSome
  | .variable name => signatures name = none
  | .quoted (.call method []) => (signatures method).isSome
  | .quoted f => f.ArityConsistent signatures
  | .call method arguments =>
      ∃ signature, signatures method = some signature ∧
        Form.ArgumentsConsistent signatures signature 0 arguments
  | .flag _ => False

/-- The arguments from some place on, `count` positional ones before it: the
positional ones are as many as are required, or more where there is a rest
parameter, and each flag is declared or stands where the call still takes
positional arguments. -/
def Form.ArgumentsConsistent (signatures : Signatures) (signature : Signature) :
    Nat → List Form → Prop
  | count, [] => signature.arity ≤ count
  | _, [.flag _] => False
  | count, .flag name :: value :: rest =>
      (signature.declares name = true ∨ signature.isPending count = true) ∧
        value.ArityConsistent signatures ∧
        Form.ArgumentsConsistent signatures signature count rest
  | count, argument :: rest =>
      signature.isPending count = true ∧ argument.ArityConsistent signatures ∧
        Form.ArgumentsConsistent signatures signature (count + 1) rest

end

/-! ## Layouts that denote their form -/

/-- A call that has all it requires ends before a token, if the token closes
its group or is nothing that the call takes. -/
def Signature.EndsBefore (signature : Signature) : Option TokenKind → Prop
  | none => True
  | some .closing => True
  | some (.flag name) => signature.rest = none ∧ signature.declares name = false
  | some _ => signature.rest = none

mutual

/-- Every call without parentheses ends where it should.  `next` is the token
after the layout. -/
def Layout.Delimited (signatures : Signatures) :
    Layout → (next : Option TokenKind) → Prop
  | .flag _, _ => False
  | .quoted inner, next =>
      -- A bare name after a quote mark would be quoted without its arguments.
      inner.isCall = false ∧
        (∀ method signature, inner.form = .call method [] →
          signatures method = some signature → signature.arity = 0) ∧
        inner.Delimited signatures next
  | .call method arguments, next =>
      (∀ signature, signatures method = some signature → signature.EndsBefore next) ∧
        Layout.AllDelimited signatures arguments next
  | .group inner, _ => inner.Delimited signatures (some .closing)
  | _, _ => True

def Layout.AllDelimited (signatures : Signatures) :
    List Layout → (next : Option TokenKind) → Prop
  | [], _ => True
  | layout :: rest, next =>
      (layout.isFlag = true ∨
        layout.Delimited signatures ((Layout.kindsOfAll rest).head?.or next)) ∧
        Layout.AllDelimited signatures rest next

end

end ArityScript
