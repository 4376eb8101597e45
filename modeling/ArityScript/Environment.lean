import ArityScript.Store

/-!
# Environments

A host holds scopes as environments.  Making one makes its root frame, and the
environment that was made with a root owns all frames that are ever made on
behalf of it.  A fork shares the frames of its environment but owns none.
Giving up an owner empties the frames of its root, so that forks and methods
that have outlived it find nothing in them; giving up a fork changes nothing.
-/

namespace ArityScript

/-- A scope as a host holds it.  The environment that was made with a root owns
the frames of that root; a fork of it does not. -/
structure Environment where
  chain : Chain
  owner : Bool
deriving Inhabited

namespace Environment

def create (store : Store) : Environment × Store :=
  let (chain, store) := store.addRoot
  (⟨chain, true⟩, store)

/-- An environment with the same frames, which does not own them. -/
def fork (env : Environment) : Environment :=
  ⟨env.chain, false⟩

/-- Gives an environment up: an owner's frames are emptied. -/
def drop (env : Environment) (store : Store) : Store :=
  if env.owner then store.release env.chain.root else store

end Environment

end ArityScript
