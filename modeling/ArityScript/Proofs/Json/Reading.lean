import ArityScript.Proofs.Json.Scalars

/-!
# The reader and the grammar of JSON

A text is read as a JSON value exactly if the grammar derives the value from it and
the value is nested at most 127 levels deep.  Readers of parts are sound and complete
if the reader of a part is.  So the levels of a value are taken off one by one.
-/

namespace ArityScript.Json

/-! ## Parts -/

theorem blank_iff {text : List Char} : Blank text ↔ ∀ c ∈ text, isSpace c = true := by
  simp only [Blank, isSpace, Bool.or_eq_true, beq_iff_eq, or_assoc]

theorem skipSpace_eq_self {rest : List Char} (hrest : ∀ c ∈ rest.head?, isSpace c = false) :
    skipSpace rest = rest := by
  cases rest with
  | nil => rfl
  | cons c rest => simp [skipSpace, hrest c rfl]

theorem skipSpace_append {space rest : List Char} (hspace : Blank space)
    (hrest : ∀ c ∈ rest.head?, isSpace c = false) : skipSpace (space ++ rest) = rest := by
  rw [skipSpace, List.dropWhile_append_of_pos (blank_iff.1 hspace)]
  exact skipSpace_eq_self hrest

theorem exists_blank_append (chars : List Char) :
    ∃ space, Blank space ∧ chars = space ++ skipSpace chars :=
  ⟨chars.takeWhile isSpace, blank_iff.2 (List.all_eq_true.1 List.all_takeWhile),
    List.takeWhile_append_dropWhile.symm⟩

theorem Blank.append {first second : List Char} (hfirst : Blank first) (hsecond : Blank second) :
    Blank (first ++ second) := by
  intro c hc
  rcases List.mem_append.1 hc with hc | hc
  · exact hfirst c hc
  · exact hsecond c hc

section

variable {α : Type} {part : List Char → α → Prop}

theorem Parts.blank_append {space text : List Char} {items : List α} (hspace : Blank space)
    (hparts : Parts part text items) : Parts part (space ++ text) items := by
  cases hparts with
  | last hbefore hpart hafter =>
      simpa only [List.append_assoc] using Parts.last (hspace.append hbefore) hpart hafter
  | cons hbefore hpart hafter hrest =>
      simpa only [List.append_assoc] using Parts.cons (hspace.append hbefore) hpart hafter hrest

theorem Parts.length_le {text : List Char} {items : List α} (hparts : Parts part text items) :
    items.length ≤ text.length + 1 := by
  induction hparts with
  | last _ _ _ => simp
  | cons _ _ _ _ ih =>
      simp only [List.length_cons, List.length_append]
      omega

theorem Parts.imp {other : List Char → α → Prop} {text : List Char} {items : List α}
    (himp : ∀ text, ∀ item ∈ items, part text item → other text item)
    (hparts : Parts part text items) : Parts other text items := by
  induction hparts with
  | last hbefore hpart hafter =>
      exact .last hbefore (himp _ _ List.mem_cons_self hpart) hafter
  | cons hbefore hpart hafter _ ih =>
      refine .cons hbefore (himp _ _ List.mem_cons_self hpart) hafter ?_
      exact ih fun text item hmem => himp text item (List.mem_cons_of_mem _ hmem)

variable {readPart : Read α} {close : Char}

theorem of_readParts (hsound : Read.Sound readPart part) {steps : Nat} {chars rest : List Char}
    {items : List α} (hread : readParts readPart close steps chars = some (items, rest)) :
    ∃ text, chars = text ++ close :: rest ∧ Parts part text items := by
  induction steps generalizing chars items with
  | zero => cases hread
  | succ steps ih =>
      obtain ⟨before, hbefore, hchars⟩ := exists_blank_append chars
      rw [readParts] at hread
      split at hread
      · cases hread
      · next item tail hitem =>
          obtain ⟨text, htext, hpart⟩ := hsound hitem
          obtain ⟨after, hafter, htail⟩ := exists_blank_append tail
          split at hread
          · next tail hcomma =>
              obtain ⟨others, hothers, rfl⟩ := of_map_eq_some hread
              obtain ⟨othersText, rfl, hparts⟩ := ih hothers
              refine ⟨before ++ text ++ after ++ ',' :: othersText, ?_, ?_⟩
              · rw [hchars, htext, htail, hcomma]
                simp
              · exact .cons hbefore hpart hafter hparts
          · next c tail _ hnext =>
              split at hread
              · next hclose =>
                  obtain ⟨rfl, rfl⟩ := Prod.mk.inj (Option.some.inj hread)
                  refine ⟨before ++ text ++ after, ?_, .last hbefore hpart hafter⟩
                  rw [hchars, htext, htail, hnext, hclose]
                  simp
              · cases hread
          · cases hread

theorem of_readEnclosed (hsound : Read.Sound readPart part) {chars rest : List Char}
    {items : List α} (hread : readEnclosed readPart close chars = some (items, rest)) :
    ∃ text, chars = text ++ close :: rest ∧ (items = [] ∧ Blank text ∨ Parts part text items) := by
  obtain ⟨space, hspace, hchars⟩ := exists_blank_append chars
  unfold readEnclosed at hread
  split at hread
  · cases hread
  · next c tail hskip =>
      split at hread
      · next hclose =>
          obtain ⟨rfl, rfl⟩ := Prod.mk.inj (Option.some.inj hread)
          refine ⟨space, ?_, .inl ⟨rfl, hspace⟩⟩
          rw [hchars, hskip, hclose]
      · obtain ⟨text, htext, hparts⟩ := of_readParts hsound hread
        refine ⟨space ++ text, ?_, .inr (hparts.blank_append hspace)⟩
        rw [hchars, hskip, htext, List.append_assoc]

/-- A part starts with a character that is neither space nor a closing one. -/
def Starts (text : List Char) : Prop :=
  ∃ c rest, text = c :: rest ∧ isSpace c = false ∧ c ≠ ']' ∧ c ≠ '\x7d'

theorem Starts.append {text : List Char} (hstarts : Starts text) (rest : List Char) :
    Starts (text ++ rest) := by
  obtain ⟨c, tail, rfl, hc⟩ := hstarts
  exact ⟨c, tail ++ rest, rfl, hc⟩

theorem Starts.skipSpace_append {text space : List Char} (hstarts : Starts text)
    (hspace : Blank space) (rest : List Char) :
    skipSpace (space ++ (text ++ rest)) = text ++ rest := by
  obtain ⟨c, tail, rfl, hc, _⟩ := hstarts
  refine Json.skipSpace_append hspace fun d hd => ?_
  obtain rfl : c = d := Option.some.inj hd
  exact hc

theorem Parts.exists_starts {text : List Char} {items : List α} (hparts : Parts part text items)
    (hstarts : ∀ text item, part text item → Starts text) :
    ∃ space inner, text = space ++ inner ∧ Blank space ∧ Parts part inner items ∧
      Starts inner := by
  cases hparts with
  | @last before text after item hbefore hpart hafter =>
      refine ⟨before, text ++ after, by simp, hbefore, ?_, (hstarts _ _ hpart).append after⟩
      exact .last blank_nil hpart hafter
  | @cons before text after others item items hbefore hpart hafter hothers =>
      refine ⟨before, text ++ after ++ ',' :: others, by simp, hbefore, ?_, ?_⟩
      · exact .cons blank_nil hpart hafter hothers
      · exact ((hstarts _ _ hpart).append after).append (',' :: others)

theorem ends_blank {space : List Char} (hspace : Blank space) : Ends space := by
  intro c hc
  rcases hspace c (List.mem_of_mem_head? hc) with rfl | rfl | rfl | rfl <;> decide

/-- Space and what separates or closes parts end a number. -/
theorem ends_append {space : List Char} {c : Char} (hspace : Blank space)
    (hc : c = ',' ∨ c = ']' ∨ c = '\x7d') (rest : List Char) : Ends (space ++ c :: rest) := by
  cases space with
  | nil =>
      intro d hd
      obtain rfl : c = d := Option.some.inj hd
      rcases hc with rfl | rfl | rfl <;> decide
  | cons first space =>
      intro d hd
      exact ends_blank hspace d hd

section

variable (hcomplete : Read.Complete readPart part)
  (hstarts : ∀ text item, part text item → Starts text)
  (hclose : close = ']' ∨ close = '\x7d')

include hcomplete hstarts hclose

theorem readParts_append {steps : Nat} {text : List Char} {items : List α}
    (hparts : Parts part text items) (hsteps : items.length ≤ steps) (rest : List Char) :
    readParts readPart close steps (text ++ close :: rest) = some (items, rest) := by
  have hspaceClose : isSpace close = false ∧ close ≠ ',' := by
    rcases hclose with rfl | rfl <;> decide
  induction hparts generalizing steps with
  | @last before text after item hbefore hpart hafter =>
      obtain ⟨steps, rfl⟩ := Nat.exists_eq_add_of_le' hsteps
      have hread := hcomplete hpart (ends_append hafter (.inr hclose) rest)
      have hskip : skipSpace (after ++ close :: rest) = close :: rest :=
        skipSpace_append hafter (by simp [hspaceClose])
      simp only [List.append_assoc, List.length_singleton, readParts,
        (hstarts _ _ hpart).skipSpace_append hbefore, hread, hskip]
      split
      · next heq => exact absurd (List.cons.inj heq).1 hspaceClose.2
      · next heq =>
          obtain ⟨rfl, rfl⟩ := List.cons.inj heq
          rw [if_pos rfl]
      · contradiction
  | @cons before text after others item items hbefore hpart hafter _ ih =>
      obtain ⟨steps, rfl⟩ := Nat.exists_eq_add_of_le' (Nat.one_le_of_lt hsteps)
      have hothers := ih (Nat.le_of_succ_le_succ hsteps)
      have hread := hcomplete hpart (ends_append hafter (.inl rfl) (others ++ close :: rest))
      have hskip : skipSpace (after ++ ',' :: (others ++ close :: rest)) =
          ',' :: (others ++ close :: rest) := skipSpace_append hafter (by simp [isSpace])
      simp only [List.append_assoc, List.cons_append, readParts,
        (hstarts _ _ hpart).skipSpace_append hbefore, hread, hskip, hothers]
      rfl

theorem readEnclosed_parts {text : List Char} {items : List α} (hparts : Parts part text items)
    (rest : List Char) :
    readEnclosed readPart close (text ++ close :: rest) = some (items, rest) := by
  have hsteps : items.length ≤ (text ++ close :: rest).length := by
    have hlength := hparts.length_le
    simp only [List.length_append, List.length_cons]
    omega
  obtain ⟨space, inner, rfl, hspace, hinner, hstart⟩ := hparts.exists_starts hstarts
  have hread := readParts_append hcomplete hstarts hclose hinner hsteps rest
  have hskip := hstart.skipSpace_append hspace (close :: rest)
  rw [← List.append_assoc] at hskip
  obtain ⟨c, tail, rfl, _, hbracket, hbrace⟩ := hstart
  have hne : c ≠ close := by
    rcases hclose with rfl | rfl
    · exact hbracket
    · exact hbrace
  simp only [readEnclosed, hskip, List.cons_append, if_neg hne]
  exact hread

omit hcomplete hstarts in
theorem readEnclosed_empty {text : List Char} (htext : Blank text) (rest : List Char) :
    readEnclosed readPart close (text ++ close :: rest) = some ([], rest) := by
  have hskip : skipSpace (text ++ close :: rest) = close :: rest := by
    refine skipSpace_append htext ?_
    rcases hclose with rfl | rfl <;> simp [isSpace]
  simp only [readEnclosed, hskip, if_true]

end

end

/-! ## Values -/

theorem of_readWord {α : Type} {value a : α} {word chars rest : List Char}
    (hread : readWord value word chars = some (a, rest)) : chars = word ++ rest ∧ a = value := by
  induction word generalizing chars with
  | nil =>
      obtain ⟨rfl, rfl⟩ := Prod.mk.inj (Option.some.inj hread)
      exact ⟨rfl, rfl⟩
  | cons c word ih =>
      cases chars with
      | nil => cases hread
      | cons d chars =>
          rw [readWord] at hread
          split at hread
          · next heq =>
              obtain ⟨rfl, rfl⟩ := ih hread
              rw [heq]
              exact ⟨rfl, rfl⟩
          · cases hread

theorem readWord_append {α : Type} (value : α) (word rest : List Char) :
    readWord value word (word ++ rest) = some (value, rest) := by
  induction word with
  | nil => rfl
  | cons c word ih =>
      rw [List.cons_append, readWord, if_pos rfl]
      exact ih

section

variable {value other : List Char → Json Literal → Prop} {text : List Char}
  {member : List Char × Json Literal}

theorem Member.imp (himp : ∀ text, value text member.2 → other text member.2)
    (hmember : Member value text member) : Member other text member := by
  cases hmember with
  | mk hkey hbefore hafter hvalue => exact .mk hkey hbefore hafter (himp _ hvalue)

theorem Member.starts (hmember : Member value text member) : Starts text := by
  cases hmember with
  | mk _ _ _ _ => exact ⟨'"', _, rfl, by decide⟩

variable {readInner : Read (Json Literal)}

theorem sound_readMember (hsound : Read.Sound readInner value) :
    Read.Sound (readMember readInner) (Member value) := by
  intro chars rest member hread
  unfold readMember at hread
  split at hread
  · cases hread
  · next key tail hkey =>
      unfold readString at hkey
      split at hkey
      · obtain ⟨keyText, rfl, hinside⟩ := of_readChars hkey
        obtain ⟨before, hbefore, htail⟩ := exists_blank_append tail
        split at hread
        · next tail hcolon =>
            obtain ⟨json, hjson, rfl⟩ := of_map_eq_some hread
            obtain ⟨after, hafter, hrest⟩ := exists_blank_append tail
            obtain ⟨text, htext, hvalue⟩ := hsound hjson
            refine ⟨_, ?_, .mk hinside hbefore hafter hvalue⟩
            rw [htail, hcolon, hrest, htext]
            simp
        · cases hread
      · cases hkey

theorem complete_readMember (hcomplete : Read.Complete readInner value)
    (hstarts : ∀ text json, value text json → Starts text) :
    Read.Complete (readMember readInner) (Member value) := by
  intro text rest member hmember hends
  obtain @⟨keyText, key, before, after, text, json, hinside, hbefore, hafter, hvalue⟩ := hmember
  have hcolon : skipSpace (before ++ ':' :: (after ++ (text ++ rest))) =
      ':' :: (after ++ (text ++ rest)) := skipSpace_append hbefore (by simp [isSpace])
  simp only [List.append_assoc, List.cons_append, readMember, readString,
    readChars_append hinside, hcolon, (hstarts _ _ hvalue).skipSpace_append hafter,
    hcomplete hvalue hends]
  rfl

end

theorem Numeral.exists_first {text : List Char} {literal : Literal}
    (hnumeral : Numeral text literal) :
    ∃ first rest, text = first :: rest ∧
      ∀ c, c ≠ '-' → c.isDigit = false → first ≠ c := by
  obtain @⟨negative, _, _, _, _, _, hwhole, _, _⟩ := hnumeral
  obtain ⟨first, digits, rfl, hfirst⟩ := hwhole.head
  cases negative with
  | true => exact ⟨'-', _, rfl, fun c hminus _ => hminus.symm⟩
  | false =>
      refine ⟨first, _, rfl, fun c _ hdigit heq => ?_⟩
      rw [heq, hdigit] at hfirst
      contradiction

theorem Written.starts {text : List Char} {json : Json Literal} (hwritten : Written text json) :
    Starts text := by
  cases hwritten with
  | null | true | false => exact ⟨_, _, rfl, by decide⟩
  | number hnumeral =>
      obtain ⟨first, rest, rfl, hne⟩ := hnumeral.exists_first
      refine ⟨first, rest, rfl, ?_, hne ']' (by decide) rfl, hne '\x7d' (by decide) rfl⟩
      simp [isSpace, hne ' ' (by decide) rfl, hne '\n' (by decide) rfl, hne '\t' (by decide) rfl,
        hne '\r' (by decide) rfl]
  | string _ | emptyArray _ | array _ | emptyObject _ | object _ => exact ⟨_, _, rfl, by decide⟩

def WrittenWithin (levels : Nat) (text : List Char) (json : Json Literal) : Prop :=
  Written text json ∧ json.nesting ≤ levels

theorem Member.nesting_le {levels : Nat} {text : List Char} {member : List Char × Json Literal}
    (hmember : Member (WrittenWithin levels) text member) : member.2.nesting ≤ levels := by
  cases hmember with
  | mk _ _ _ hvalue => exact hvalue.2

/-- A reader takes a value without parts, or an array or object with the levels that
are left. -/
theorem of_readValue {levels : Nat} {chars rest : List Char} {json : Json Literal}
    (hread : readValue levels chars = some (json, rest)) :
    (∃ text, chars = text ++ rest ∧ Written text json ∧ json.nesting = 0) ∨
    ∃ inner tail, levels = inner + 1 ∧
      ((∃ items, json = .array items ∧ chars = '[' :: tail ∧
        readEnclosed (readValue inner) ']' tail = some (items, rest)) ∨
      ∃ members, json = .object members ∧ chars = '\x7b' :: tail ∧
        readEnclosed (readMember (readValue inner)) '\x7d' tail = some (members, rest)) := by
  unfold readValue at hread
  split at hread
  · cases hread
  split at hread
  · next hfirst =>
      obtain ⟨rfl, rfl⟩ := of_readWord hread
      exact .inl ⟨_, by rw [hfirst]; rfl, .null, rfl⟩
  split at hread
  · next hfirst =>
      obtain ⟨rfl, rfl⟩ := of_readWord hread
      exact .inl ⟨_, by rw [hfirst]; rfl, .true, rfl⟩
  split at hread
  · next hfirst =>
      obtain ⟨rfl, rfl⟩ := of_readWord hread
      exact .inl ⟨_, by rw [hfirst]; rfl, .false, rfl⟩
  split at hread
  · next hfirst =>
      obtain ⟨chars, hchars, rfl⟩ := of_map_eq_some hread
      obtain ⟨text, rfl, hinside⟩ := of_readChars hchars
      exact .inl ⟨'"' :: text ++ ['"'], by simp [hfirst], .string hinside, rfl⟩
  split at hread
  · next hfirst =>
      split at hread
      · cases hread
      · obtain ⟨items, hitems, rfl⟩ := of_map_eq_some hread
        exact .inr ⟨_, _, rfl, .inl ⟨items, rfl, by rw [hfirst], hitems⟩⟩
  split at hread
  · next hfirst =>
      split at hread
      · cases hread
      · obtain ⟨members, hmembers, rfl⟩ := of_map_eq_some hread
        exact .inr ⟨_, _, rfl, .inr ⟨members, rfl, by rw [hfirst], hmembers⟩⟩
  · obtain ⟨n, hnumber, rfl⟩ := of_map_eq_some hread
    obtain ⟨text, htext, hnumeral⟩ := sound_readNumber hnumber
    exact .inl ⟨text, htext, .number hnumeral, rfl⟩

theorem sound_readValue (levels : Nat) :
    Read.Sound (readValue levels) (WrittenWithin levels) := by
  induction levels using Nat.strongRecOn with
  | ind levels ih =>
      intro chars rest json hread
      rcases of_readValue hread with ⟨text, htext, hwritten, hnesting⟩ | ⟨inner, tail, rfl, hinside⟩
      · exact ⟨text, htext, hwritten, hnesting ▸ Nat.zero_le levels⟩
      have hinner := ih inner (Nat.lt_succ_self inner)
      rcases hinside with ⟨items, rfl, rfl, hitems⟩ | ⟨members, rfl, rfl, hmembers⟩
      · obtain ⟨text, rfl, ⟨rfl, hblank⟩ | hparts⟩ := of_readEnclosed hinner hitems
        · exact ⟨_, by simp, .emptyArray hblank, by simp [nesting, nestingOfAll]⟩
        · have hwritten := hparts.imp fun _ _ _ hpart => hpart.1
          have hnesting := hparts.forall_mem fun _ _ hpart => hpart.2
          exact ⟨_, by simp, .array hwritten, Nat.succ_le_succ (nestingOfAll_le.2 hnesting)⟩
      · obtain ⟨text, rfl, ⟨rfl, hblank⟩ | hparts⟩ :=
          of_readEnclosed (sound_readMember hinner) hmembers
        · exact ⟨_, by simp, .emptyObject hblank, by simp [nesting, nestingOfMembers]⟩
        · have hwritten := hparts.imp fun _ _ _ hmember => hmember.imp fun _ hvalue => hvalue.1
          have hnesting := hparts.forall_mem fun _ _ hmember => hmember.nesting_le
          exact ⟨_, by simp, .object hwritten, Nat.succ_le_succ (nestingOfMembers_le.2 hnesting)⟩

theorem exists_inner {inner levels : Nat} (hlevels : inner + 1 ≤ levels) :
    ∃ inner, levels = inner + 1 := by
  cases levels with
  | zero => exact absurd hlevels (Nat.not_succ_le_zero inner)
  | succ levels => exact ⟨levels, rfl⟩

theorem complete_readValue (levels : Nat) :
    Read.Complete (readValue levels) (WrittenWithin levels) := by
  induction levels using Nat.strongRecOn with
  | ind levels ih =>
      rintro text rest json ⟨hwritten, hnesting⟩ hends
      cases hwritten with
      | null =>
          have hread := readWord_append (Json.null : Json Literal) "ull".toList rest
          unfold readValue
          exact hread
      | true =>
          have hread := readWord_append (Json.bool true : Json Literal) "rue".toList rest
          unfold readValue
          exact hread
      | false =>
          have hread := readWord_append (Json.bool false : Json Literal) "alse".toList rest
          unfold readValue
          exact hread
      | number hnumeral =>
          have hread := complete_readNumber hnumeral hends
          obtain ⟨first, digits, rfl, hne⟩ := hnumeral.exists_first
          unfold readValue
          simp only [List.cons_append, if_neg (hne 'n' (by decide) rfl),
            if_neg (hne 't' (by decide) rfl), if_neg (hne 'f' (by decide) rfl),
            if_neg (hne '"' (by decide) rfl), if_neg (hne '[' (by decide) rfl),
            if_neg (hne '\x7b' (by decide) rfl)]
          rw [List.cons_append] at hread
          rw [hread]
          rfl
      | @string text chars hinside =>
          have hread := readChars_append hinside rest
          unfold readValue
          simp [hread]
      | @emptyArray text hblank =>
          obtain ⟨inner, rfl⟩ := exists_inner hnesting
          have hread : readEnclosed (readValue inner) ']' (text ++ ']' :: rest) = some ([], rest) :=
            readEnclosed_empty (.inl rfl) hblank rest
          unfold readValue
          simp [hread]
      | @array text items hparts =>
          obtain ⟨inner, rfl⟩ := exists_inner hnesting
          have hitems := nestingOfAll_le.1 (Nat.le_of_succ_le_succ hnesting)
          have hwithin : Parts (WrittenWithin inner) text items :=
            hparts.imp fun _ item hmem hwritten => ⟨hwritten, hitems item hmem⟩
          have hread := readEnclosed_parts (ih inner (Nat.lt_succ_self inner))
            (fun _ _ hitem => hitem.1.starts) (.inl rfl) hwithin rest
          unfold readValue
          simp [hread]
      | @emptyObject text hblank =>
          obtain ⟨inner, rfl⟩ := exists_inner hnesting
          have hread : readEnclosed (readMember (readValue inner)) '\x7d'
              (text ++ '\x7d' :: rest) = some ([], rest) :=
            readEnclosed_empty (.inr rfl) hblank rest
          unfold readValue
          simp [hread]
      | @object text members hparts =>
          obtain ⟨inner, rfl⟩ := exists_inner hnesting
          have hmembers := nestingOfMembers_le.1 (Nat.le_of_succ_le_succ hnesting)
          have hwithin : Parts (Member (WrittenWithin inner)) text members :=
            hparts.imp fun _ member hmem hmember =>
              hmember.imp fun _ hwritten => ⟨hwritten, hmembers member hmem⟩
          have hcomplete := complete_readMember (ih inner (Nat.lt_succ_self inner))
            fun _ _ hvalue => hvalue.1.starts
          have hread := readEnclosed_parts hcomplete (fun _ _ hmember => hmember.starts)
            (.inr rfl) hwithin rest
          unfold readValue
          simp [hread]

/-! ## Texts -/

/-- A text is read as the value that the grammar derives from it, if that is not
nested too deeply. -/
theorem parse?_eq_some_iff {chars : List Char} {json : Json Literal} :
    parse? chars = some json ↔ Document chars json ∧ json.nesting ≤ maxNesting := by
  constructor
  · intro hparse
    unfold parse? at hparse
    split at hparse
    · cases hparse
    · next json rest hread =>
        split at hparse
        · next hempty =>
            obtain rfl := Option.some.inj hparse
            obtain ⟨before, hbefore, hchars⟩ := exists_blank_append chars
            obtain ⟨after, hafter, hrest⟩ := exists_blank_append rest
            obtain ⟨text, htext, hwritten, hnesting⟩ := sound_readValue maxNesting hread
            have hall : chars = before ++ text ++ after := by
              rw [hchars, htext, hrest, List.isEmpty_iff.1 hempty]
              simp
            exact ⟨hall ▸ .mk hbefore hwritten hafter, hnesting⟩
        · cases hparse
  · rintro ⟨hdocument, hnesting⟩
    obtain @⟨before, text, after, _, hbefore, hwritten, hafter⟩ := hdocument
    have hread := complete_readValue maxNesting ⟨hwritten, hnesting⟩ (ends_blank hafter)
    have hskip : skipSpace after = [] := by
      have happend : skipSpace (after ++ []) = [] := skipSpace_append hafter (by simp)
      rwa [List.append_nil] at happend
    simp [parse?, List.append_assoc, hwritten.starts.skipSpace_append hbefore, hread, hskip]

/-- With enough levels, the value of a text is read. -/
theorem Document.exists_read {chars : List Char} {json : Json Literal}
    (hdocument : Document chars json) {levels : Nat} (hnesting : json.nesting ≤ levels) :
    ∃ rest, readValue levels (skipSpace chars) = some (json, rest) := by
  obtain @⟨before, text, after, _, hbefore, hwritten, hafter⟩ := hdocument
  have hread := complete_readValue levels ⟨hwritten, hnesting⟩ (ends_blank hafter)
  exact ⟨after, by rw [List.append_assoc, hwritten.starts.skipSpace_append hbefore, hread]⟩

/-- A text denotes at most one value. -/
theorem Document.unique {chars : List Char} {json other : Json Literal}
    (hjson : Document chars json) (hother : Document chars other) : json = other := by
  obtain ⟨_, hread⟩ := hjson.exists_read (le_max_left json.nesting other.nesting)
  obtain ⟨_, hotherRead⟩ := hother.exists_read (le_max_right json.nesting other.nesting)
  rw [hread] at hotherRead
  exact congrArg Prod.fst (Option.some.inj hotherRead)

end ArityScript.Json
