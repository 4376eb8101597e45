import ArityScript.Proofs.Json.Grammar

/-!
# Writing strings

The text that is written for a string can be derived in the grammar, and the
characters of the string from it: quotes, backslashes and control characters are
escaped, and all others stand for themselves.
-/

namespace ArityScript.Json

theorem hexDigit_digitChar {value : Nat} (hvalue : value < 16) :
    HexDigit value.digitChar value := by
  have htable : ∀ value < 16,
      "0123456789abcdef".toList[value]? = some value.digitChar := by decide
  exact .inl (htable value hvalue)

theorem exists_hexUnit_controlText {c : Char} (hcontrol : c.toNat < 0x20) :
    ∃ hex, controlText c = '\\' :: 'u' :: hex ∧ HexUnit hex c.toNat := by
  have htable : ∀ code < 0x20, controlText (Char.ofNat code) =
      ['\\', 'u', '0', '0', (code / 16).digitChar, (code % 16).digitChar] := by decide
  have htext := htable c.toNat hcontrol
  rw [Char.ofNat_toNat] at htext
  have hunit := HexUnit.mk (hexDigit_digitChar (Nat.zero_lt_succ 15))
    (hexDigit_digitChar (Nat.zero_lt_succ 15))
    (hexDigit_digitChar (by omega : c.toNat / 16 < 16))
    (hexDigit_digitChar (by omega : c.toNat % 16 < 16))
  rw [Nat.zero_mul, Nat.zero_add, Nat.div_add_mod'] at hunit
  exact ⟨_, htext, hunit⟩

theorem Inside.charText_append {text chars : List Char} (hinside : Inside text chars) (c : Char) :
    Inside (charText c ++ text) (c :: chars) := by
  unfold charText
  split
  iterate 7 · exact .escaped (by simp [escapes]) hinside
  · next hquote hbackslash _ _ _ _ _ =>
      split
      · next hcontrol =>
          obtain ⟨hex, htext, hunit⟩ := exists_hexUnit_controlText hcontrol
          have hlead : ¬Lead c.toNat := by
            unfold Lead
            omega
          have htrail : ¬Trail c.toNat := by
            unfold Trail
            omega
          have hinside := Inside.unit hunit hlead htrail hinside
          rw [Char.ofNat_toNat] at hinside
          rw [htext]
          exact hinside
      · next hcontrol => exact .plain (Nat.not_lt.1 hcontrol) hquote hbackslash hinside

theorem inside_flatMap_charText (chars : List Char) : Inside (chars.flatMap charText) chars := by
  induction chars with
  | nil => exact .nil
  | cons c rest ih => exact ih.charText_append c

end ArityScript.Json
