import ArityScript.Main
import ArityScript.Proofs.Arithmetic
import ArityScript.Proofs.Binding.Interleaving
import ArityScript.Proofs.Closure
import ArityScript.Proofs.Independence
import ArityScript.Proofs.Json.Exchange
import ArityScript.Proofs.Levels
import ArityScript.Proofs.Listing
import ArityScript.Proofs.Literals
import ArityScript.Proofs.Numerals
import ArityScript.Proofs.Pairing
import ArityScript.Proofs.Progress
import ArityScript.Proofs.Release
import ArityScript.Proofs.Rendering.Tokens
import ArityScript.Proofs.Snippet
import ArityScript.Proofs.Tiling
import ArityScript.Proofs.Unmatched
