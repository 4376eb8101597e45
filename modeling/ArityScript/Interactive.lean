import ArityScript.Interactive.Session
import ArityScript.Text.Draft

/-!
# Sessions without a terminal

Lines from an input that is no terminal are read with their backspaces obeyed.
-/

namespace ArityScript.Interactive

def transcript (input : String) : String × Ending :=
  transcriptWith Text.revise? input

end ArityScript.Interactive
