import ArityScript.Proofs.Rendering

/-!
# Tokens and parentheses

Reading a form uses up all tokens of its source, each of them once and in their
order.  What a form forgets of them is only where parentheses stood: without
its parentheses, the source has the tokens of the text of the form.

The parentheses of a source that is read as a form are balanced, as those of
every layout are.
-/

namespace ArityScript

open Layout (kindsOfAll forms)

def TokenKind.isParenthesis : TokenKind → Bool
  | .opening | .closing => true
  | _ => false

/-- The tokens of a list that are not parentheses. -/
def properKinds (kinds : List TokenKind) : List TokenKind :=
  kinds.filter fun kind => !kind.isParenthesis

theorem properKinds_append (left right : List TokenKind) :
    properKinds (left ++ right) = properKinds left ++ properKinds right :=
  List.filter_append left right

theorem properKinds_cons (kind : TokenKind) (kinds : List TokenKind) :
    properKinds (kind :: kinds) = properKinds [kind] ++ properKinds kinds :=
  properKinds_append [kind] kinds

theorem properKinds_group (inner : List TokenKind) :
    properKinds (.opening :: (inner ++ [.closing])) = properKinds inner := by
  have hopening : properKinds [.opening] = [] := rfl
  have hclosing : properKinds [.closing] = [] := rfl
  rw [properKinds_cons, properKinds_append, hopening, hclosing, List.nil_append,
    List.append_nil]

/-- No closing parenthesis comes before its opening one, and all of them are
closed in the end. -/
structure Balanced (kinds : List TokenKind) : Prop where
  take_le : ∀ n, (kinds.take n).count .closing ≤ (kinds.take n).count .opening
  count_eq : kinds.count .closing = kinds.count .opening

/-! ## Balanced parentheses -/

namespace Balanced

theorem nil : Balanced [] := by
  constructor <;> simp

theorem single {kind : TokenKind} (hkind : kind.isParenthesis = false) :
    Balanced [kind] := by
  have hclosing : [kind].count .closing = 0 := by
    cases kind with
    | closing => contradiction
    | _ => simp
  have hopening : [kind].count .opening = 0 := by
    cases kind with
    | opening => contradiction
    | _ => simp
  constructor
  · intro n
    have hle : ([kind].take n).count .closing ≤ [kind].count .closing :=
      (List.take_sublist n [kind]).count_le _
    omega
  · rw [hclosing, hopening]

theorem append {left right : List TokenKind} (hleft : Balanced left)
    (hright : Balanced right) : Balanced (left ++ right) := by
  constructor
  · intro n
    have hfirst := hleft.take_le n
    have hsecond := hright.take_le (n - left.length)
    rw [List.take_append, List.count_append, List.count_append]
    omega
  · have hfirst := hleft.count_eq
    have hsecond := hright.count_eq
    rw [List.count_append, List.count_append]
    omega

theorem cons {kind : TokenKind} {kinds : List TokenKind}
    (hkind : kind.isParenthesis = false) (hkinds : Balanced kinds) :
    Balanced (kind :: kinds) :=
  (single hkind).append hkinds

theorem group {inner : List TokenKind} (hinner : Balanced inner) :
    Balanced (.opening :: (inner ++ [.closing])) := by
  constructor
  · intro n
    cases n with
    | zero => simp
    | succ n =>
        -- The opening parenthesis makes up for the closing one, wherever the
        -- tokens are cut.
        have hbefore := hinner.take_le n
        have hlast : ([TokenKind.closing].take (n - inner.length)).count .closing ≤ 1 :=
          (List.take_sublist _ [TokenKind.closing]).count_le _
        simp only [List.take_succ_cons, List.take_append, List.count_append,
          List.count_cons_self, List.count_cons_of_ne (by simp : TokenKind.opening ≠ .closing)]
        omega
  · have hcount := hinner.count_eq
    simp only [List.count_cons, List.count_append, List.count_nil]
    simp
    omega

end Balanced

theorem Value.isParenthesis_of_tokenKind? {v : Value} {kind : TokenKind}
    (hkind : v.tokenKind? = some kind) : kind.isParenthesis = false := by
  cases v <;> cases hkind <;> rfl

namespace Layout

mutual

theorem balanced_kinds : ∀ layout : Layout, Balanced layout.kinds
  | .literal v => by
      cases hkind : v.tokenKind? with
      | none => simpa [kinds, hkind] using Balanced.nil
      | some kind =>
          simpa [kinds, hkind] using Balanced.single (v.isParenthesis_of_tokenKind? hkind)
  | .variable _ => .single rfl
  | .flag _ => .single rfl
  | .quotedName _ => .cons rfl (.single rfl)
  | .quoted inner => .cons rfl inner.balanced_kinds
  | .call _ arguments => .cons rfl (balanced_kindsOfAll arguments)
  | .group inner => .group inner.balanced_kinds

theorem balanced_kindsOfAll : ∀ layouts : List Layout, Balanced (kindsOfAll layouts)
  | [] => .nil
  | layout :: rest => layout.balanced_kinds.append (balanced_kindsOfAll rest)

end

mutual

/-- A layout and the printed one of the same form differ in nothing but their
parentheses. -/
theorem properKinds_eq : ∀ layout : Layout,
    properKinds layout.kinds = properKinds layout.form.layout.kinds
  | .literal _ | .variable _ | .flag _ | .quotedName _ => rfl
  | .quoted inner => by
      rw [kinds, properKinds_cons, inner.properKinds_eq, ← properKinds_cons]
      rfl
  | .call method arguments => by
      rw [form, Form.layout, kinds, kinds, properKinds_group, kinds, properKinds_cons,
        properKinds_eq_all arguments, ← properKinds_cons]
  | .group inner => by
      rw [kinds, properKinds_group, form, inner.properKinds_eq]

theorem properKinds_eq_all : ∀ layouts : List Layout,
    properKinds (kindsOfAll layouts) =
      properKinds (kindsOfAll (Form.layouts (forms layouts)))
  | [] => rfl
  | layout :: rest => by
      rw [kindsOfAll, properKinds_append, layout.properKinds_eq, properKinds_eq_all rest,
        ← properKinds_append]
      rfl

end

end Layout

/-! ## Sources -/

/-- The tokens of a source that is read as a form are, but for parentheses, those
of the text of the form, and the parentheses of the source are balanced. -/
theorem tokens_of_parse {signatures : Signatures} {comments : Bool} {source : String}
    {f : Form} (hparse : parse signatures comments source = .ok f) :
    (tokenize comments source).error = none ∧ (tokenize comments f.render).error = none ∧
      properKinds ((tokenize comments source).tokens.map Token.kind) =
        properKinds ((tokenize comments f.render).tokens.map Token.kind) ∧
      Balanced ((tokenize comments source).tokens.map Token.kind) := by
  obtain ⟨_, hlegible⟩ := legible_of_parse hparse
  obtain ⟨herror, layout, hkinds, hform, _⟩ := exists_layout_of_parse hparse
  obtain ⟨hprinted, hprintedError⟩ := tokenize_of_spells (spells_render hlegible)
  have hproper := layout.properKinds_eq
  rw [hform] at hproper
  refine ⟨herror, hprintedError, ?_, ?_⟩
  · rw [hkinds, hprinted]
    exact hproper
  · rw [hkinds]
    exact layout.balanced_kinds

/-- A sum keeps its three words, wherever its parentheses stand. -/
theorem tokens_of_parse_sum :
    parse (fun name => if name = "+" then some Builtin.operands else none) true "+ (1) 2" =
        .ok (.call "+" [.literal (.number 1), .literal (.number 2)]) ∧
      (Form.call "+" [.literal (.number 1), .literal (.number 2)]).render = "(+ 1 2)" ∧
      properKinds ((tokenize true "+ (1) 2").tokens.map Token.kind) =
        properKinds ((tokenize true "(+ 1 2)").tokens.map Token.kind) ∧
      Balanced ((tokenize true "+ (1) 2").tokens.map Token.kind) := by
  have hrender : (Form.call "+" [.literal (.number 1), .literal (.number 2)]).render =
      "(+ 1 2)" := by decide
  obtain ⟨_, _, hproper, hbalanced⟩ := tokens_of_parse parse_sum_eq_ok
  rw [hrender] at hproper
  exact ⟨parse_sum_eq_ok, hrender, hproper, hbalanced⟩

end ArityScript
