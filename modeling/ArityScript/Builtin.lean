import ArityScript.Builtin.Arithmetic
import ArityScript.Builtin.Collection
import ArityScript.Builtin.Comparison
import ArityScript.Builtin.Definition
import ArityScript.Environment

/-!
# The standard methods

The standard methods are native methods like those of any host; neither the
reader nor the evaluator knows them.  They are registered in one frame together
with the name of the placeholder.
-/

namespace ArityScript.Builtin

def placeholderName : String := "_"

def operands : Signature := .ofRequired ["a", "b"]

def methods : List (String × Signature × Native) := [
  ("+", operands, add),
  ("-", operands, subtract),
  ("*", operands, multiply),
  ("/", operands, divide),
  ("%", operands, remainder),
  ("min", operands, minimum),
  ("max", operands, maximum),
  ("sum", .ofRequired ["list"], sum),
  ("mul", .ofRequired ["list"], product),
  ("=", operands, equal),
  ("!=", operands, unequal),
  ("<", operands, less),
  ("<=", operands, lessOrEqual),
  (">", operands, greater),
  (">=", operands, greaterOrEqual),
  ("!", .ofRequired ["b"], negation),
  ("&&", operands, conjunction),
  ("||", operands, disjunction),
  ("if", .ofRequired ["cond", "then", "else"], choice),
  ("list", .ofRest "items", makeList),
  ("first", .ofRequired ["list"], first),
  ("size", .ofRequired ["list"], size),
  ("filter", .ofRequired ["list", "pred"], filter),
  ("map", .ofRequired ["list", "transform"], map),
  ("concat", .ofRest "parts", concatenate),
  ("..", (Signature.ofRequired ["low", "high"]).withOption "step" (.number 1), makeRange),
  ("def", .ofRest "parts", definition),
  ("set", .ofRequired ["name", "value"], assignment),
  ("scope", .ofRequired ["body"], scope)]

def registerNative (chain : Chain) (store : Store)
    (method : String × Signature × Native) : Store :=
  store.register chain method.1 ⟨method.2.1, .native method.2.2⟩

/-- Registers the standard methods and the placeholder in the innermost frame
of a chain. -/
def register (chain : Chain) (store : Store) : Store :=
  (methods.foldl (registerNative chain) store).bind chain placeholderName .placeholder

/-- Makes an environment whose root frame holds the standard methods. -/
def createGlobal (store : Store) : Environment × Store :=
  let (env, store) := Environment.create store
  (env, register env.chain store)

end ArityScript.Builtin
