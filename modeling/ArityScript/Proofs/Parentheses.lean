import ArityScript.Builtin
import ArityScript.Proofs.Layout.Reading
import ArityScript.Proofs.Spelling

/-!
# Redundant parentheses

A form is read back from every text of every layout of it, whatever parentheses,
blanks and comments the text has.  The layout has to be delimited: what comes
after a call without parentheses is nothing that the call would take.  This is
all that parentheses are for.
-/

namespace ArityScript

open Lexer

/-- Reading any text of a delimited layout of a consistent form gives the form.
The variables and names of the form are such that they can be spelled, because
the text spells them. -/
theorem parse_eq_ok_of_layout {signatures : Signatures} {comments : Bool}
    {f : Form} {layout : Layout} {source : String}
    (hconsistent : f.ArityConsistent signatures)
    (hform : layout.form = f)
    (hdelimited : layout.Delimited signatures none)
    (hdepth : layout.depth ≤ maxReadDepth)
    (hspells : Spells comments layout.kinds source.toList) :
    parse signatures comments source = .ok f := by
  obtain ⟨hkinds, herror⟩ := tokenize_of_spells hspells
  subst f
  exact parse_of_kinds hconsistent hdelimited hdepth hkinds herror

/-- The methods of the witness: a sum and a range with a step. -/
def sampleSignatures : Signatures := fun name =>
  if name = "+" then some Builtin.operands
  else if name = ".." then
    some ((Signature.ofRequired ["low", "high"]).withOption "step" (.number 1))
  else none

def sampleLayout : Layout :=
  .call "+" [.group (.literal (.number 1)),
    .call ".." [.literal (.number 2), .flag "step", .group (.literal (.number 3)),
      .quoted (.variable "x")]]

theorem sampleLayout_spelled :
    Spells true sampleLayout.kinds "+ (1) .. 2 --step (03) 'x # end".toList := by
  have hword : ∀ {kind kinds} (chars after : List Char),
      IsWord true chars → readWord chars = .ok kind → EndsWord after →
        Spells true kinds after → Spells true (kind :: kinds) (chars ++ after) :=
    fun _ _ => Spells.word
  have hend : Spells true [] " # end".toList :=
    .blank (by decide) (@Spells.lastComment true " end".toList rfl (by decide))
  have hx : Spells true [.identifier "x"] "x # end".toList :=
    hword "x".toList _ (by decide) rfl (by decide) hend
  have hquote : Spells true [.quote, .identifier "x"] " 'x # end".toList :=
    .blank (by decide) (@Spells.token _ _ _ ['\''] _ .quote (by decide) hx)
  have hthree : Spells true [.opening, .number 3, .closing, .quote, .identifier "x"]
      "(03) 'x # end".toList :=
    @Spells.token _ _ _ ['('] _ .opening (by decide)
      (hword "03".toList _ (by decide) rfl (by decide)
        (@Spells.token _ _ _ [')'] _ .closing (by decide) hquote))
  have hstep : Spells true
      [.flag "step", .opening, .number 3, .closing, .quote, .identifier "x"]
      "--step (03) 'x # end".toList :=
    hword "--step".toList _ (by decide) rfl (by decide)
      (.blank (by decide) hthree)
  have hrange : Spells true
      [.identifier "..", .number 2, .flag "step", .opening, .number 3, .closing, .quote,
        .identifier "x"] ".. 2 --step (03) 'x # end".toList :=
    hword "..".toList _ (by decide) rfl (by decide)
      (.blank (by decide)
        (hword "2".toList _ (by decide) rfl (by decide)
          (.blank (by decide) hstep)))
  have hone : Spells true
      [.opening, .number 1, .closing, .identifier "..", .number 2, .flag "step", .opening,
        .number 3, .closing, .quote, .identifier "x"]
      "(1) .. 2 --step (03) 'x # end".toList :=
    @Spells.token _ _ _ ['('] _ .opening (by decide)
      (hword "1".toList _ (by decide) rfl (by decide)
        (@Spells.token _ _ _ [')'] _ .closing (by decide) (.blank (by decide) hrange)))
  exact hword "+".toList _ (by decide) rfl (by decide)
    (.blank (by decide) hone)

theorem sampleLayout_consistent :
    sampleLayout.form.ArityConsistent sampleSignatures := by
  have hsum : sampleSignatures "+" = some Builtin.operands := by decide
  have hrange : sampleSignatures ".." = some
      ((Signature.ofRequired ["low", "high"]).withOption "step" (.number 1)) := by
    simp [sampleSignatures]
  have hx : sampleSignatures "x" = none := by decide
  simp only [sampleLayout, Layout.form, Layout.forms, Form.ArityConsistent,
    Form.ArgumentsConsistent, Value.tokenKind?]
  refine ⟨_, hsum, by decide, rfl, by decide, ⟨_, hrange, ?_⟩, by decide⟩
  exact ⟨by decide, rfl, .inl (by decide), rfl, by decide, hx, by decide⟩

/-- Parentheses around the operands change nothing, nor do blanks and a comment. -/
theorem parse_sample_eq_ok :
    sampleLayout.form.ArityConsistent sampleSignatures ∧
      sampleLayout.Delimited sampleSignatures none ∧
      sampleLayout.depth ≤ maxReadDepth ∧
      parse sampleSignatures true "+ (1) .. 2 --step (03) 'x # end" =
        .ok (.call "+" [.literal (.number 1),
          .call ".." [.literal (.number 2), .flag "step", .literal (.number 3),
            .quoted (.variable "x")]]) := by
  have hdelimited : sampleLayout.Delimited sampleSignatures none := by
    simp [sampleLayout, Layout.Delimited, Layout.AllDelimited, Layout.isFlag,
      Layout.isCall, Layout.kindsOfAll, Layout.form, Signature.EndsBefore]
  have hdepth : sampleLayout.depth ≤ maxReadDepth := by decide
  exact ⟨sampleLayout_consistent, hdelimited, hdepth,
    parse_eq_ok_of_layout sampleLayout_consistent rfl hdelimited hdepth
      sampleLayout_spelled⟩

end ArityScript
