import ArityScript.Builtin
import ArityScript.Evaluation
import ArityScript.Text.Blank

/-!
# Interactive sessions

A session evaluates one line after the other in an environment with the
standard methods, and shows each value or error.  A line that starts with a colon
is a command.  The whole dialogue is a function of the input text.

The editor that reads the lines is a parameter: what it makes of a line, if it can
read the line.
-/

namespace ArityScript.Interactive

def prompt : String := "limn> "

def banner : String := "limn 0.1.0: enter an expression, or :help\n"

def help : String := "Commands:
  :help          this text
  :env           list visible bindings
  :quit, :exit   leave (Ctrl+C and Ctrl+D work too)

Syntax:
  + 1 * 3 2              calls absorb as many arguments as the method declares
  (+ 1 (* 3 2))          parentheses delimit one expression explicitly
  .. --step 4 1 20       optional parameters are passed as --name value
  '(+ 1 2)               a quote defers evaluation
  # ...                  comment to end of line

Methods:
  arithmetic   + - * / % min max sum mul
  comparison   = != < <= > >=
  logic        ! && || if
  collections  list first size filter map concat ..
  system       def set scope

Try:
  set '$xs (list 1 2 3 4 5)
  filter $xs '(> $it 2)
  def 'sq '$x '(* $x $x)
  map (.. 1 5) '(sq $it)
"

/-! ## Listing bindings -/

def namesPerLine : Nat := 8

def nameWidth : Nat := 12

/-- Cuts a list into pieces of a length, the last of which may be shorter. -/
def pieces {α : Type} (length : Nat) (items : List α) : List (List α) :=
  match items with
  | [] => []
  | head :: rest =>
      (head :: rest.take (length - 1)) :: pieces length (rest.drop (length - 1))
termination_by items.length
decreasing_by
  simp only [List.length_drop, List.length_cons]
  omega

def padName (name : String) : String :=
  name ++ String.ofList (List.replicate (nameWidth - name.length) ' ')

def isNative (store : Store) (value : Value) : Bool :=
  match value.method?.bind store.method? with
  | some method => method.isNative
  | none => false

/-- The visible native methods and all other visible bindings, each in the
order of their names. -/
def listing (store : Store) (chain : Chain) :
    List (String × Value) × List (String × Value) :=
  (store.visible chain).entries.partition fun entry => isNative store entry.2

def nativesText (names : List String) : String :=
  if names.isEmpty then ""
  else
    "native methods (" ++ toString names.length ++ "):\n" ++
      String.join ((pieces namesPerLine names).map fun line =>
        "  " ++ " ".intercalate line ++ "\n")

def valuesText (entries : List (String × Value)) : String :=
  if entries.isEmpty then "no user bindings\n"
  else
    "user bindings (" ++ toString entries.length ++ "):\n" ++
      String.join (entries.map fun entry =>
        "  " ++ padName entry.1 ++ " " ++ entry.2.render ++ "\n")

def bindingsText (store : Store) (chain : Chain) : String :=
  let (natives, values) := listing store chain
  nativesText (natives.map Prod.fst) ++ valuesText values

/-! ## Lines -/

structure State where
  running : Bool
  env : Environment
  store : Store

def start : State :=
  let (env, store) := Builtin.createGlobal .empty
  ⟨true, env, store⟩

def resultText : Except Error Value → String
  | .ok value => value.render ++ "\n"
  | .error error => error.render ++ "\n"

/-- Handles a line without blanks at its ends; the text is what is shown. -/
def handle (state : State) (line : List Char) : String × State :=
  if line = [] then ("", state)
  else if line = ":help".toList then (help, state)
  else if line = ":env".toList then (bindingsText state.store state.env.chain, state)
  else if line = ":quit".toList ∨ line = ":exit".toList then
    ("", { state with running := false })
  else if line.head? = some ':' then
    ("unknown command " ++ String.ofList line ++ ", try :help\n", state)
  else
    match evaluate true (String.ofList line) state.env.chain state.store with
    | (result, store) => (resultText result, { state with store })

/-! ## Dialogues -/

/-- The lines of an input text; a line break at the end starts no line. -/
def inputLines (input : List Char) : List (List Char) :=
  match input.splitOn '\n' with
  | [] => []
  | pieces => if pieces.getLast? = some [] then pieces.dropLast else pieces

/-- How a session ends: when it is left or its input is used up, or at a line
that cannot be read. -/
inductive Ending where
  | regular
  | broken
deriving DecidableEq, Repr

def Ending.status : Ending → Nat
  | .regular => 0
  | .broken => 101

section

variable (editor : List Char → Option (List Char))

/-- Handles a line as the editor reads it, if it can be read. -/
def step? (state : State) (line : List Char) : Option (String × State) :=
  (editor line).map fun line => handle state (Text.trim line)

/-- What a session shows for its lines, and how it ends. -/
def dialogue : State → List (List Char) → String × Ending
  | _, [] => (prompt, .regular)
  | state, line :: rest =>
      match step? editor state line with
      | none => (prompt, .broken)
      | some (shown, state) =>
          if state.running then
            let (later, ending) := dialogue state rest
            (prompt ++ shown ++ later, ending)
          else (prompt ++ shown, .regular)

def transcriptWith (input : String) : String × Ending :=
  let (shown, ending) := dialogue editor start (inputLines input.toList)
  (banner ++ shown, ending)

end

end ArityScript.Interactive
