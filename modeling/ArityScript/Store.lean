import ArityScript.Program

/-!
# Frames and methods

All bindings live in frames, and a store holds every frame and every method
ever made.  A scope is a chain of frames from the innermost one to its root.
Chains share frames by their numbers, so what one chain binds is seen through
every other chain with the same frame.

Each frame belongs to the root of the chain for which it was made.  Releasing a
root empties the frames that belong to it, wherever they are still in use; the
frames themselves stay.  Methods never change once they are made.
-/

namespace ArityScript

abbrev FrameId := Nat

/-- One level of bindings, and the root on whose behalf it was made. -/
structure Frame where
  root : FrameId
  bindings : NameMap Value

/-- A scope: its innermost frame, and the frames around it from the inside out. -/
structure Chain where
  innermost : FrameId
  outer : List FrameId
deriving DecidableEq, Repr, Inhabited

namespace Chain

def frames (chain : Chain) : List FrameId :=
  chain.innermost :: chain.outer

def root (chain : Chain) : FrameId :=
  chain.outer.getLastD chain.innermost

def depth (chain : Chain) : Nat :=
  chain.frames.length

def push (chain : Chain) (frame : FrameId) : Chain :=
  ⟨frame, chain.frames⟩

end Chain

inductive Body where
  | native (program : Native)
  /-- A form, evaluated in a fresh frame over the chain it was defined in. -/
  | defined (form : Form) (scope : Chain)

structure Method where
  signature : Signature
  body : Body

def Method.isNative (method : Method) : Bool :=
  match method.body with
  | .native _ => true
  | .defined .. => false

structure Store where
  frames : Array Frame
  methods : Array Method

namespace Store

def empty : Store :=
  ⟨#[], #[]⟩

instance : Inhabited Store := ⟨empty⟩

/-! ## Frames -/

def bindings (store : Store) (frame : FrameId) : NameMap Value :=
  match store.frames[frame]? with
  | some content => content.bindings
  | none => .empty

def addFrame (store : Store) (root : FrameId) : FrameId × Store :=
  (store.frames.size, { store with frames := store.frames.push ⟨root, .empty⟩ })

def addRoot (store : Store) : Chain × Store :=
  let (frame, store) := store.addFrame store.frames.size
  (⟨frame, []⟩, store)

/-- Opens a scope: the chain gets a fresh innermost frame. -/
def enter (store : Store) (chain : Chain) : Chain × Store :=
  let (frame, store) := store.addFrame chain.root
  (chain.push frame, store)

/-- Binds a name in the innermost frame of a chain. -/
def bind (store : Store) (chain : Chain) (name : String) (value : Value) : Store :=
  { store with
    frames := store.frames.modify chain.innermost fun frame =>
      { frame with bindings := frame.bindings.insert name value } }

def bindAll (store : Store) (chain : Chain) (map : NameMap Value) : Store :=
  map.entries.foldl (fun store entry => store.bind chain entry.1 entry.2) store

/-- The value of a name in a list of frames: the first frame that binds it
decides. -/
def lookupIn (store : Store) (name : String) (frames : List FrameId) : Option Value :=
  frames.findSome? fun frame => (store.bindings frame).find? name

/-- The value of a name in a chain: the innermost frame that binds it decides. -/
def lookup (store : Store) (chain : Chain) (name : String) : Option Value :=
  store.lookupIn name chain.frames

def visible (store : Store) (chain : Chain) : NameMap Value :=
  chain.frames.foldr (fun frame map => map.override (store.bindings frame)) .empty

/-- Empties all frames made on behalf of a root. -/
def release (store : Store) (root : FrameId) : Store :=
  { store with
    frames := store.frames.map fun frame =>
      if frame.root = root then { frame with bindings := .empty } else frame }

/-! ## Methods -/

def addMethod (store : Store) (name : String) (method : Method) : MethodRef × Store :=
  (⟨store.methods.size, name⟩, { store with methods := store.methods.push method })

def method? (store : Store) (ref : MethodRef) : Option Method :=
  store.methods[ref.id]?

/-- Makes a method of a form that is evaluated over a chain; each parameter is
required. -/
def define (store : Store) (chain : Chain) (name : String)
    (parameters : List String) (body : Form) : MethodRef × Store :=
  store.addMethod name ⟨.ofRequired parameters, .defined body chain⟩

def register (store : Store) (chain : Chain) (name : String) (method : Method) : Store :=
  let (ref, store) := store.addMethod name method
  store.bind chain name (.method ref)

/-- The visible method of a name; a value that is not a method hides those
further out. -/
def lookupMethod (store : Store) (chain : Chain) (name : String) : Option MethodRef :=
  (store.lookup chain name).bind Value.method?

def signatures (store : Store) (chain : Chain) : Signatures := fun name =>
  (store.lookupMethod chain name).bind fun ref =>
    (store.method? ref).map Method.signature

end Store

end ArityScript
