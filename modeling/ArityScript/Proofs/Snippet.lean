import ArityScript.Text.Snippet

/-!
# What a snippet shows

A snippet is cut out of its source between characters, whatever byte offset it is
asked for: an offset within a character, or past the end of the source, is as good as
any other.  It starts at the last boundary that is at least twenty bytes before the
offset, and it is long enough to have the character at the offset in it.  Marks show
at which ends the source goes on, and the final text stays on one line.

Going back byte by byte always comes to a boundary, and what is cut there is a text.
-/

namespace ArityScript.Text

/-! ## Character boundaries -/

theorem isValid_iff_width {source : String} {position : String.Pos.Raw} :
    position.IsValid source ↔
      ∃ front, front <+: source.toList ∧ width front = position.byteIdx := by
  rw [String.Pos.Raw.isValid_iff_exists_append]
  constructor
  · rintro ⟨front, rest, rfl, rfl⟩
    exact ⟨front.toList, ⟨rest.toList, by simp⟩, width_toList front⟩
  · rintro ⟨front, ⟨rest, hsource⟩, hwidth⟩
    refine ⟨String.ofList front, String.ofList rest, ?_, ?_⟩
    · rw [← String.ofList_append, hsource, String.ofList_toList]
    · apply String.Pos.Raw.ext
      rw [← hwidth, String.byteIdx_rawEndPos, ← width_toList, String.toList_ofList]

/-- What is dropped is no wider than it should be, and one more character would be. -/
theorem exists_dropWidth (bytes : Nat) (chars : List Char) :
    ∃ front, chars = front ++ dropWidth bytes chars ∧ width front ≤ bytes ∧
      ∀ c rest, dropWidth bytes chars = c :: rest → bytes < width front + c.utf8Size := by
  induction chars generalizing bytes with
  | nil => exact ⟨[], rfl, Nat.zero_le _, by simp [dropWidth]⟩
  | cons c rest ih =>
      simp only [dropWidth]
      split
      next hfits =>
        obtain ⟨front, hrest, hwidth, hlast⟩ := ih (bytes - c.utf8Size)
        refine ⟨c :: front, congrArg (List.cons c) hrest, ?_, ?_⟩
        · rw [width_cons]
          omega
        · intro next after hdrop
          have hpassed := hlast next after hdrop
          rw [width_cons]
          omega
      next hwide =>
        refine ⟨[], rfl, Nat.zero_le _, ?_⟩
        intro next after hdrop
        cases hdrop
        simpa using hwide

/-- Of all boundaries up to some byte, the one up to which is dropped is the last. -/
theorem width_le_of_dropWidth {bytes : Nat} {front rest other : List Char}
    (hlast : ∀ c after, rest = c :: after → bytes < width front + c.utf8Size)
    (hother : other <+: front ++ rest) (hwidth : width other ≤ bytes) :
    width other ≤ width front := by
  rcases List.prefix_or_prefix_of_prefix hother (List.prefix_append front rest) with
    ⟨more, rfl⟩ | ⟨more, rfl⟩
  · rw [width_append]
    exact Nat.le_add_right _ _
  · cases more with
    | nil => simp
    | cons c after =>
        -- The boundary would be past the first character that was not dropped.
        rw [List.prefix_append_right_inj] at hother
        obtain ⟨left, rfl⟩ := hother
        have hpassed := hlast c (after ++ left) rfl
        rw [width_append, width_cons] at hwidth
        omega

theorem length_le_width (chars : List Char) : chars.length ≤ width chars := by
  induction chars with
  | nil => exact Nat.le_refl 0
  | cons c rest ih =>
      have hsize := c.utf8Size_pos
      rw [List.length_cons, width_cons]
      omega

theorem exists_char_at {byte : Nat} {chars : List Char} (hlt : byte < width chars) :
    ∃ front c rest, chars = front ++ c :: rest ∧ width front ≤ byte ∧
      byte < width front + c.utf8Size := by
  obtain ⟨front, hchars, hwidth, hlast⟩ := exists_dropWidth byte chars
  cases hdrop : dropWidth byte chars with
  | nil =>
      rw [hdrop, List.append_nil] at hchars
      rw [hchars] at hlt
      omega
  | cons c rest =>
      rw [hdrop] at hchars
      exact ⟨front, c, rest, hchars, hwidth, hlast c rest hdrop⟩

/-! ## The window -/

/-- A hundred characters are enough to get to the offset: the window starts at most
twenty bytes and one character before it. -/
theorem exists_shown {front start : List Char} {offset : Nat}
    (hlast : ∀ c rest, start = c :: rest → offset - snippetLead < width front + c.utf8Size)
    (hfront : width front ≤ offset) (hlt : offset < width (front ++ start)) :
    ∃ before c after, start.take snippetLength = before ++ c :: after ∧
      width (front ++ before) ≤ offset ∧ offset < width (front ++ before) + c.utf8Size := by
  rw [width_append] at hlt
  obtain ⟨before, c, rest, rfl, hwidth, hpassed⟩ :=
    @exists_char_at (offset - width front) start (by omega)
  have hnear : offset - width front < snippetLead + 4 := by
    obtain ⟨first, others, hfirst⟩ : ∃ first others, before ++ c :: rest = first :: others :=
      List.exists_cons_of_ne_nil (by simp)
    have hstart := hlast first others hfirst
    have hsize := first.utf8Size_le_four
    omega
  have hlength := length_le_width before
  have hroom : before.length < snippetLength := by
    unfold snippetLead at hnear
    unfold snippetLength
    omega
  refine ⟨before, c, rest.take (snippetLength - before.length - 1), ?_, ?_, ?_⟩
  · rw [List.take_append, List.take_of_length_le (Nat.le_of_lt hroom),
      List.take_cons (by omega)]
  · rw [width_append]
    omega
  · rw [width_append]
    omega

/-- A window on a source around a byte offset, and what the source has before and
after it.  The start is the last boundary up to twenty bytes before the offset, and
the window is as long as it may be. -/
structure ShowsAround (source : String) (offset : Nat) (before window after : String) :
    Prop where
  source_eq : source = before ++ window ++ after
  start_le : before.utf8ByteSize ≤ min (offset - 20) source.utf8ByteSize
  le_start : ∀ position : String.Pos.Raw, position.IsValid source →
    position.byteIdx ≤ min (offset - 20) source.utf8ByteSize →
    position.byteIdx ≤ before.utf8ByteSize
  length_le : window.length ≤ 100
  length_eq : after ≠ "" → window.length = 100
  covers : offset < source.utf8ByteSize →
    ∃ front c rest, window = front ++ String.singleton c ++ rest ∧
      (before ++ front).utf8ByteSize ≤ offset ∧
      offset < (before ++ front).utf8ByteSize + c.utf8Size

theorem showsAround_of_dropWidth {source : String} {offset : Nat} {front start : List Char}
    (hsource : source.toList = front ++ start) (hfront : width front ≤ offset - snippetLead)
    (hlast : ∀ c rest, start = c :: rest → offset - snippetLead < width front + c.utf8Size) :
    ShowsAround source offset (String.ofList front)
      (String.ofList (start.take snippetLength)) (String.ofList (start.drop snippetLength)) := by
  have hbefore : (String.ofList front).utf8ByteSize = width front := by
    rw [← width_toList, String.toList_ofList]
  have hwidth : source.utf8ByteSize = width (front ++ start) := by
    rw [← width_toList, hsource]
  refine ⟨?_, ?_, ?_, ?_, ?_, ?_⟩
  · rw [← String.ofList_append, ← String.ofList_append, List.append_assoc,
      List.take_append_drop, ← hsource, String.ofList_toList]
  · rw [hbefore, hwidth, width_append]
    exact Nat.le_min.2 ⟨hfront, Nat.le_add_right _ _⟩
  · intro position hvalid hle
    obtain ⟨other, hother, hposition⟩ := isValid_iff_width.1 hvalid
    rw [hsource] at hother
    rw [← hposition] at hle ⊢
    rw [hbefore]
    exact width_le_of_dropWidth hlast hother (Nat.le_trans hle (Nat.min_le_left _ _))
  · rw [String.length_ofList]
    exact List.length_take_le _ _
  · intro hafter
    rw [ne_eq, String.ofList_eq_empty_iff, List.drop_eq_nil_iff] at hafter
    rw [String.length_ofList, List.length_take_of_le (Nat.le_of_lt (Nat.not_le.1 hafter))]
    rfl
  · intro hlt
    rw [hwidth] at hlt
    obtain ⟨inner, c, rest, htake, hle, hpassed⟩ := exists_shown hlast (by omega) hlt
    refine ⟨String.ofList inner, c, String.ofList rest, ?_, ?_, ?_⟩
    · rw [htake, String.singleton_eq_ofList, ← String.ofList_append, ← String.ofList_append,
        List.append_assoc, List.singleton_append]
    · rw [← String.ofList_append, ← width_toList, String.toList_ofList]
      exact hle
    · rw [← String.ofList_append, ← width_toList, String.toList_ofList]
      exact hpassed

/-! ## The final text -/

theorem showLineBreaks_eq_flatMap (chars : List Char) :
    showLineBreaks chars = chars.flatMap fun c =>
      if c = '\n' then ['\\', 'n'] else if c = '\r' then [] else [c] := by
  induction chars with
  | nil => rfl
  | cons c rest ih =>
      rw [List.flatMap_cons, ← ih]
      by_cases hfeed : c = '\n'
      · subst hfeed
        rfl
      by_cases hreturn : c = '\r'
      · subst hreturn
        rfl
      rw [if_neg hfeed, if_neg hreturn]
      simp only [showLineBreaks]
      rfl

theorem not_mem_showLineBreaks {c : Char} (hbreak : c = '\n' ∨ c = '\r') (chars : List Char) :
    c ∉ showLineBreaks chars := by
  rw [showLineBreaks_eq_flatMap, List.mem_flatMap]
  rintro ⟨shown, _, hshown⟩
  split at hshown
  · -- The escape of a line feed is a backslash and a letter.
    rcases hbreak with rfl | rfl <;> simp at hshown
  split at hshown
  · cases hshown
  next hfeed hreturn =>
    obtain rfl := List.mem_singleton.1 hshown
    exact hbreak.elim hfeed hreturn

/-- What a snippet shows of a source is a window around the offset, with a mark at
each end at which the source goes on.  Line feeds are shown as escapes and carriage
returns are left out, so that neither is in the final text. -/
theorem snippet_shows (source : String) (offset : Nat) :
    (∃ before window after, ShowsAround source offset before window after ∧
      markedSnippet source.toList offset =
        (if before = "" then [] else "[...]".toList) ++ window.toList ++
          (if after = "" then [] else "[...]".toList)) ∧
    (snippet source.toList offset =
      (markedSnippet source.toList offset).flatMap fun c =>
        if c = '\n' then ['\\', 'n'] else if c = '\r' then [] else [c]) ∧
    '\n' ∉ snippet source.toList offset ∧ '\r' ∉ snippet source.toList offset := by
  refine ⟨?_, showLineBreaks_eq_flatMap _, ?_, ?_⟩
  · obtain ⟨front, hsource, hfront, hlast⟩ :=
      exists_dropWidth (offset - snippetLead) source.toList
    generalize hstart : dropWidth (offset - snippetLead) source.toList = start at hsource hlast
    refine ⟨_, _, _, showsAround_of_dropWidth hsource hfront hlast, ?_⟩
    have hbefore : start.length < source.toList.length ↔ ¬String.ofList front = "" := by
      rw [hsource, List.length_append, String.ofList_eq_empty_iff, ← List.length_eq_zero_iff]
      omega
    have hafter : snippetLength < start.length ↔
        ¬String.ofList (start.drop snippetLength) = "" := by
      rw [String.ofList_eq_empty_iff, List.drop_eq_nil_iff, Nat.not_le]
    simp only [markedSnippet, snippetStart, hstart, hbefore, hafter, ite_not,
      String.toList_ofList]
    rfl
  · exact not_mem_showLineBreaks (.inl rfl) _
  · exact not_mem_showLineBreaks (.inr rfl) _

/-- Twenty bytes before the offset is within the second character, which is shown. -/
example : snippet "ééé + 1 * 2 - 3 / 4\n)".toList 23 =
    "[...]éé + 1 * 2 - 3 / 4\\n)".toList := by decide

/-! ## Snippets of bytes -/

theorem width_pos_iff {chars : List Char} : 0 < width chars ↔ chars ≠ [] := by
  constructor
  · rintro hpos rfl
    exact Nat.lt_irrefl 0 hpos
  · exact width_pos

theorem length_utf8 (chars : List Char) : (utf8 chars).length = width chars := by
  induction chars with
  | nil => rfl
  | cons c rest ih =>
      rw [utf8, List.flatMap_cons, List.length_append, String.length_utf8EncodeChar, width_cons]
      exact congrArg _ ih

theorem utf8_append (front rest : List Char) : utf8 (front ++ rest) = utf8 front ++ utf8 rest :=
  List.flatMap_append

theorem utf8_cons (c : Char) (rest : List Char) :
    utf8 (c :: rest) = String.utf8EncodeChar c ++ utf8 rest :=
  List.flatMap_cons

/-- Only the first byte of a character is one before which there is a boundary. -/
theorem exists_utf8EncodeChar (c : Char) :
    ∃ first others, String.utf8EncodeChar c = first :: others ∧ isFirstByte first = true ∧
      ∀ byte ∈ others, isFirstByte byte = false := by
  have hfirst : ∀ {n}, n < 128 ∨ 192 ≤ n ∧ n < 256 → isFirstByte (UInt8.ofNat n) = true := by
    intro n hn
    simp only [isFirstByte, UInt8.toNat_ofNat', Bool.or_eq_true, decide_eq_true_eq]
    omega
  have hother : ∀ n, isFirstByte (UInt8.ofNat (n % 64 + 128)) = false := by
    intro n
    simp only [isFirstByte, UInt8.toNat_ofNat', Bool.or_eq_false_iff, decide_eq_false_iff_not]
    omega
  have hnone : ∀ byte ∈ ([] : List UInt8), isFirstByte byte = false := by simp
  have hcons : ∀ n {others : List UInt8}, (∀ byte ∈ others, isFirstByte byte = false) →
      ∀ byte ∈ UInt8.ofNat (n % 64 + 128) :: others, isFirstByte byte = false :=
    fun n _ hothers => List.forall_mem_cons.2 ⟨hother n, hothers⟩
  simp only [String.utf8EncodeChar]
  split
  · exact ⟨_, _, rfl, hfirst (by omega), hnone⟩
  split
  · exact ⟨_, _, rfl, hfirst (by omega), hcons _ hnone⟩
  split
  · exact ⟨_, _, rfl, hfirst (by omega), hcons _ (hcons _ hnone)⟩
  · exact ⟨_, _, rfl, hfirst (by omega), hcons _ (hcons _ (hcons _ hnone))⟩

theorem isBoundary_width (front rest : List Char) :
    isBoundary (utf8 (front ++ rest)) (width front) = true := by
  unfold isBoundary
  rw [Bool.or_eq_true, Bool.or_eq_true, beq_iff_eq, beq_iff_eq]
  cases rest with
  | nil => exact .inl (.inr (by rw [List.append_nil, length_utf8]))
  | cons c rest =>
      obtain ⟨first, others, hc, hfirst, _⟩ := exists_utf8EncodeChar c
      rw [utf8_append, utf8_cons, hc, ← length_utf8 front]
      exact .inr (by simp [hfirst])

theorem isBoundary_inside {front rest : List Char} {c : Char} {offset : Nat}
    (hlow : width front < offset) (hhigh : offset < width front + c.utf8Size) :
    isBoundary (utf8 (front ++ c :: rest)) offset = false := by
  have hlength := length_utf8 (front ++ c :: rest)
  rw [width_append, width_cons] at hlength
  obtain ⟨first, others, hc, _, hothers⟩ := exists_utf8EncodeChar c
  have hsize := String.length_utf8EncodeChar c
  rw [hc, List.length_cons] at hsize
  obtain ⟨place, rfl⟩ : ∃ place, offset = width front + (place + 1) :=
    ⟨offset - width front - 1, by omega⟩
  have hplace : place < others.length := by omega
  have hbyte : (utf8 (front ++ c :: rest))[width front + (place + 1)]? = some others[place] := by
    rw [utf8_append, utf8_cons, hc, ← length_utf8 front, List.getElem?_append_right (by omega),
      Nat.add_sub_cancel_left, List.cons_append, List.getElem?_cons_succ,
      List.getElem?_append_left hplace, List.getElem?_eq_getElem hplace]
  unfold isBoundary
  rw [hbyte, Option.any_some, hothers _ (List.getElem_mem hplace), Bool.or_false,
    Bool.or_eq_false_iff, beq_eq_false_iff_ne, beq_eq_false_iff_ne]
  omega

example : isBoundary (utf8 ['é', 'a']) 1 = false := by decide

theorem boundaryUpTo?_eq {bytes : List UInt8} {offset last : Nat} (hle : last ≤ offset)
    (hlast : isBoundary bytes last = true)
    (hnone : ∀ other, last < other → other ≤ offset → isBoundary bytes other = false) :
    boundaryUpTo? bytes offset = some last := by
  induction offset with
  | zero =>
      obtain rfl := Nat.le_zero.1 hle
      rw [boundaryUpTo?, if_pos hlast]
  | succ offset ih =>
      rw [boundaryUpTo?]
      rcases Nat.lt_or_eq_of_le hle with hlt | rfl
      · rw [hnone _ hlt (Nat.le_refl _), if_neg Bool.false_ne_true]
        exact ih (Nat.le_of_lt_succ hlt) fun other hother hle =>
          hnone other hother (Nat.le_succ_of_le hle)
      · rw [if_pos hlast]

theorem textFrom?_width (front rest : List Char) :
    textFrom? (utf8 (front ++ rest)) (width front) = some rest := by
  have htext : String.fromUTF8? (utf8 rest).toByteArray = some (String.ofList rest) :=
    dif_pos (String.ofList rest).isValidUTF8
  rw [textFrom?, if_pos (isBoundary_width front rest), utf8_append, ← length_utf8 front,
    List.drop_left, htext, Option.map_some, String.toList_ofList]

/-- Cutting a snippet out of the bytes of a source never fails, and shows what is shown
of its characters. -/
theorem snippetOfBytes?_utf8 (source : List Char) (offset : Nat) :
    snippetOfBytes? (utf8 source) offset = some (snippet source offset) := by
  obtain ⟨front, hsource, hfront, hlast⟩ := exists_dropWidth (offset - snippetLead) source
  unfold snippet markedSnippet snippetStart
  generalize dropWidth (offset - snippetLead) source = start at hsource hlast ⊢
  subst hsource
  have hstart : boundaryUpTo? (utf8 (front ++ start))
      (min (offset - snippetLead) (utf8 (front ++ start)).length) = some (width front) := by
    rw [length_utf8, width_append]
    refine boundaryUpTo?_eq (by omega) (isBoundary_width front start) fun other hlow hhigh => ?_
    cases start with
    | nil =>
        rw [width_nil] at hhigh
        omega
    | cons c rest =>
        have hpassed := hlast c rest rfl
        exact isBoundary_inside hlow (by omega)
  have hbefore : 0 < width front ↔ start.length < (front ++ start).length := by
    rw [width_pos_iff, List.length_append, ← List.length_pos_iff]
    omega
  have hafter : width front + width (start.take snippetLength) < (utf8 (front ++ start)).length ↔
      snippetLength < start.length := by
    have hsplit := congrArg width (List.take_append_drop snippetLength start)
    rw [width_append] at hsplit
    have hleft : 0 < width (start.drop snippetLength) ↔ snippetLength < start.length := by
      rw [width_pos_iff, ne_eq, List.drop_eq_nil_iff, Nat.not_le]
    rw [length_utf8, width_append, ← hsplit, ← hleft]
    omega
  unfold snippetOfBytes?
  rw [hstart, Option.bind_some, textFrom?_width, Option.map_some]
  simp only [hbefore, hafter]

end ArityScript.Text
