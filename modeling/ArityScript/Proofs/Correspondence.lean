import ArityScript.Form.Printer
import ArityScript.Program
import Mathlib.Data.List.Forall2
import Mathlib.Order.Basic

/-!
# Corresponding values

Two runs of the same program may make frames and methods under different
numbers.  A correspondence pairs the numbers of one run with those of the other,
each with at most one.  Values and forms correspond when they differ only in the
numbers of methods, and those are paired.

Nothing that a value shows depends on the numbers of methods: corresponding
values have the same text, are of the same kind, and are equal in one run exactly
if they are in the other.
-/

namespace ArityScript

/-- A pairing of the frames and methods of two runs. -/
structure Correspondence where
  frames : Nat → Nat → Prop
  methods : Nat → Nat → Prop
  frames_iff : ∀ {a b c d : Nat}, frames a b → frames c d → (a = c ↔ b = d)
  methods_iff : ∀ {a b c d : Nat}, methods a b → methods c d → (a = c ↔ b = d)

namespace Correspondence

instance : Preorder Correspondence where
  le pairs more :=
    (∀ a b, pairs.frames a b → more.frames a b) ∧
      ∀ a b, pairs.methods a b → more.methods a b
  le_refl _ := ⟨fun _ _ h => h, fun _ _ h => h⟩
  le_trans _ _ _ hfirst hsecond :=
    ⟨fun a b h => hsecond.1 a b (hfirst.1 a b h), fun a b h => hsecond.2 a b (hfirst.2 a b h)⟩

end Correspondence

mutual

def Value.Related (pairs : Correspondence) : Value → Value → Prop
  | .number n, .number m => n = m
  | .string s, .string t => s = t
  | .bool b, .bool c => b = c
  | .list items, .list others => Value.AllRelated pairs items others
  | .range r, .range q => r = q
  | .placeholder, .placeholder => True
  | .method ref, .method other => pairs.methods ref.id other.id ∧ ref.name = other.name
  | .form f, .form g => f.Related pairs g
  | _, _ => False

def Form.Related (pairs : Correspondence) : Form → Form → Prop
  | .literal v, .literal w => v.Related pairs w
  | .variable name, .variable other => name = other
  | .quoted f, .quoted g => f.Related pairs g
  | .call method arguments, .call other others =>
      method = other ∧ Form.AllRelated pairs arguments others
  | .flag name, .flag other => name = other
  | _, _ => False

def Value.AllRelated (pairs : Correspondence) : List Value → List Value → Prop
  | [], [] => True
  | v :: rest, w :: others => v.Related pairs w ∧ Value.AllRelated pairs rest others
  | _, _ => False

def Form.AllRelated (pairs : Correspondence) : List Form → List Form → Prop
  | [], [] => True
  | f :: rest, g :: others => f.Related pairs g ∧ Form.AllRelated pairs rest others
  | _, _ => False

end

variable {pairs more : Correspondence}

mutual

theorem Value.Related.mono (hle : pairs ≤ more) :
    ∀ {v w : Value}, v.Related pairs w → v.Related more w
  | .number _, w, h | .string _, w, h | .bool _, w, h | .range _, w, h
  | .placeholder, w, h => by cases w <;> simp_all [Value.Related]
  | .list items, w, h => by
      cases w <;> simp only [Value.Related] at h ⊢
      exact Value.allRelated_mono hle h
  | .method ref, w, h => by
      cases w <;> simp only [Value.Related] at h ⊢
      exact ⟨hle.2 _ _ h.1, h.2⟩
  | .form f, w, h => by
      cases w <;> simp only [Value.Related] at h ⊢
      exact h.mono hle

theorem Form.Related.mono (hle : pairs ≤ more) :
    ∀ {f g : Form}, f.Related pairs g → f.Related more g
  | .variable _, g, h | .flag _, g, h => by cases g <;> simp_all [Form.Related]
  | .literal v, g, h => by
      cases g <;> simp only [Form.Related] at h ⊢
      exact h.mono hle
  | .quoted f, g, h => by
      cases g <;> simp only [Form.Related] at h ⊢
      exact h.mono hle
  | .call method arguments, g, h => by
      cases g <;> simp only [Form.Related] at h ⊢
      exact ⟨h.1, Form.allRelated_mono hle h.2⟩

theorem Value.allRelated_mono (hle : pairs ≤ more) :
    ∀ {vs ws : List Value}, Value.AllRelated pairs vs ws → Value.AllRelated more vs ws
  | [], ws, h => by cases ws <;> simp_all [Value.AllRelated]
  | v :: rest, ws, h => by
      cases ws <;> simp only [Value.AllRelated] at h ⊢
      exact ⟨h.1.mono hle, Value.allRelated_mono hle h.2⟩

theorem Form.allRelated_mono (hle : pairs ≤ more) :
    ∀ {fs gs : List Form}, Form.AllRelated pairs fs gs → Form.AllRelated more fs gs
  | [], gs, h => by cases gs <;> simp_all [Form.AllRelated]
  | f :: rest, gs, h => by
      cases gs <;> simp only [Form.AllRelated] at h ⊢
      exact ⟨h.1.mono hle, Form.allRelated_mono hle h.2⟩

end

theorem Value.allRelated_iff {vs ws : List Value} :
    Value.AllRelated pairs vs ws ↔ List.Forall₂ (Value.Related pairs) vs ws := by
  induction vs generalizing ws with
  | nil => cases ws <;> simp [Value.AllRelated]
  | cons v rest ih => cases ws <;> simp [Value.AllRelated, ih]

theorem Form.allRelated_iff {fs gs : List Form} :
    Form.AllRelated pairs fs gs ↔ List.Forall₂ (Form.Related pairs) fs gs := by
  induction fs generalizing gs with
  | nil => cases gs <;> simp [Form.AllRelated]
  | cons f rest ih => cases gs <;> simp [Form.AllRelated, ih]

/-! ## What does not depend on numbers -/

mutual

theorem Value.Related.text_eq : ∀ {v w : Value}, v.Related pairs w → v.text = w.text
  | .number _, w, h | .string _, w, h | .bool _, w, h | .range _, w, h => by
      cases w <;> simp only [Value.Related] at h
      rw [h]
  | .placeholder, w, h => by
      cases w <;> simp only [Value.Related] at h
      rfl
  | .list items, w, h => by
      cases w <;> simp only [Value.Related] at h
      rw [Value.text_list, Value.text_list, Value.textItems_eq h]
  | .method ref, w, h => by
      cases w <;> simp only [Value.Related] at h
      rw [Value.text_method, Value.text_method, h.2]
  | .form f, w, h => by
      cases w <;> simp only [Value.Related] at h
      rw [Value.text_form, Value.text_form, h.text_eq]

theorem Form.Related.text_eq : ∀ {f g : Form}, f.Related pairs g → f.text = g.text
  | .variable _, g, h | .flag _, g, h => by cases g <;> simp_all [Form.Related]
  | .literal v, g, h => by
      cases g <;> simp only [Form.Related] at h
      rw [Form.text, Form.text, h.text_eq]
  | .quoted f, g, h => by
      cases g <;> simp only [Form.Related] at h
      rw [Form.text, Form.text, h.text_eq]
  | .call method arguments, g, h => by
      cases g <;> simp only [Form.Related] at h
      rw [Form.text, Form.text, h.1, Form.textArguments_eq h.2]

theorem Value.textItems_eq :
    ∀ {vs ws : List Value}, Value.AllRelated pairs vs ws →
      Value.textItems vs = Value.textItems ws
  | [], ws, h => by cases ws <;> simp_all [Value.AllRelated]
  | [v], ws, h => by
      match ws, h with
      | [w], h =>
          simp only [Value.AllRelated] at h
          rw [Value.textItems, Value.textItems, h.1.text_eq]
      | [], h => simp [Value.AllRelated] at h
      | _ :: _ :: _, h => simp [Value.AllRelated] at h
  | v :: v' :: rest, ws, h => by
      match ws, h with
      | w :: w' :: others, h =>
          obtain ⟨hfirst, hrest⟩ : v.Related pairs w ∧
              Value.AllRelated pairs (v' :: rest) (w' :: others) := by
            rwa [Value.AllRelated] at h
          rw [Value.textItems, Value.textItems, hfirst.text_eq, Value.textItems_eq hrest]
      | [], h => simp [Value.AllRelated] at h
      | [_], h => simp [Value.AllRelated] at h

theorem Form.textArguments_eq :
    ∀ {fs gs : List Form}, Form.AllRelated pairs fs gs →
      Form.textArguments fs = Form.textArguments gs
  | [], gs, h => by cases gs <;> simp_all [Form.AllRelated]
  | f :: rest, gs, h => by
      cases gs <;> simp only [Form.AllRelated] at h
      rw [Form.textArguments, Form.textArguments, h.1.text_eq, Form.textArguments_eq h.2]

end

theorem Value.Related.render_eq {v w : Value} (h : v.Related pairs w) :
    v.render = w.render := by
  rw [Value.render, Value.render, h.text_eq]

theorem Form.Related.render_eq {f g : Form} (h : f.Related pairs g) :
    f.render = g.render := by
  rw [Form.render, Form.render, h.text_eq]

theorem Value.Related.typeName_eq {v w : Value} (h : v.Related pairs w) :
    v.typeName = w.typeName := by
  cases v <;> cases w <;> simp_all [Value.Related, Value.typeName]

theorem Form.Related.name?_eq {f g : Form} (h : f.Related pairs g) :
    f.name? = g.name? := by
  cases f <;> cases g <;> simp only [Form.Related] at h
  case «variable» name other => rw [Form.name?, h, Form.name?]
  case call method arguments other others =>
      cases arguments <;> cases others <;> simp_all [Form.AllRelated, Form.name?]
  all_goals rfl

/-! ## Equality -/

theorem MethodRef.eq_of_eq {ref other : MethodRef} (hid : ref.id = other.id)
    (hname : ref.name = other.name) : ref = other := by
  cases ref
  cases other
  simp_all

mutual

theorem Value.Related.right_unique : ∀ {v w w' : Value},
    v.Related pairs w → v.Related pairs w' → w = w'
  | .number _, w, w', h, h' | .string _, w, w', h, h' | .bool _, w, w', h, h'
  | .range _, w, w', h, h' => by
      cases w <;> simp only [Value.Related] at h
      cases w' <;> simp only [Value.Related] at h'
      rw [← h, ← h']
  | .placeholder, w, w', h, h' => by
      cases w <;> simp only [Value.Related] at h
      cases w' <;> simp only [Value.Related] at h'
      rfl
  | .list items, w, w', h, h' => by
      cases w <;> simp only [Value.Related] at h
      cases w' <;> simp only [Value.Related] at h'
      rw [Value.allRelated_right_unique h h']
  | .method ref, w, w', h, h' => by
      cases w <;> simp only [Value.Related] at h
      cases w' <;> simp only [Value.Related] at h'
      rw [MethodRef.eq_of_eq ((pairs.methods_iff h.1 h'.1).1 rfl) (h.2.symm.trans h'.2)]
  | .form f, w, w', h, h' => by
      cases w <;> simp only [Value.Related] at h
      cases w' <;> simp only [Value.Related] at h'
      rw [h.right_unique h']

theorem Form.Related.right_unique : ∀ {f g g' : Form},
    f.Related pairs g → f.Related pairs g' → g = g'
  | .variable _, g, g', h, h' | .flag _, g, g', h, h' => by
      cases g <;> simp only [Form.Related] at h
      cases g' <;> simp only [Form.Related] at h'
      rw [← h, ← h']
  | .literal v, g, g', h, h' => by
      cases g <;> simp only [Form.Related] at h
      cases g' <;> simp only [Form.Related] at h'
      rw [h.right_unique h']
  | .quoted f, g, g', h, h' => by
      cases g <;> simp only [Form.Related] at h
      cases g' <;> simp only [Form.Related] at h'
      rw [h.right_unique h']
  | .call method arguments, g, g', h, h' => by
      cases g <;> simp only [Form.Related] at h
      cases g' <;> simp only [Form.Related] at h'
      rw [← h.1, ← h'.1, Form.allRelated_right_unique h.2 h'.2]

theorem Value.allRelated_right_unique : ∀ {vs ws ws' : List Value},
    Value.AllRelated pairs vs ws → Value.AllRelated pairs vs ws' → ws = ws'
  | [], ws, ws', h, h' => by
      cases ws <;> simp only [Value.AllRelated] at h
      cases ws' <;> simp only [Value.AllRelated] at h'
      rfl
  | v :: rest, ws, ws', h, h' => by
      cases ws <;> simp only [Value.AllRelated] at h
      cases ws' <;> simp only [Value.AllRelated] at h'
      rw [h.1.right_unique h'.1, Value.allRelated_right_unique h.2 h'.2]

theorem Form.allRelated_right_unique : ∀ {fs gs gs' : List Form},
    Form.AllRelated pairs fs gs → Form.AllRelated pairs fs gs' → gs = gs'
  | [], gs, gs', h, h' => by
      cases gs <;> simp only [Form.AllRelated] at h
      cases gs' <;> simp only [Form.AllRelated] at h'
      rfl
  | f :: rest, gs, gs', h, h' => by
      cases gs <;> simp only [Form.AllRelated] at h
      cases gs' <;> simp only [Form.AllRelated] at h'
      rw [h.1.right_unique h'.1, Form.allRelated_right_unique h.2 h'.2]

end

/-- The correspondence that is seen from the other run. -/
def Correspondence.swap (pairs : Correspondence) : Correspondence where
  frames a b := pairs.frames b a
  methods a b := pairs.methods b a
  frames_iff h h' := (pairs.frames_iff h h').symm
  methods_iff h h' := (pairs.methods_iff h h').symm

mutual

theorem Value.Related.swap : ∀ {v w : Value}, v.Related pairs w → w.Related pairs.swap v
  | .number _, w, h | .string _, w, h | .bool _, w, h | .range _, w, h => by
      cases w <;> simp only [Value.Related] at h ⊢
      exact h.symm
  | .placeholder, w, h => by
      cases w <;> simp only [Value.Related] at h ⊢
  | .list items, w, h => by
      cases w <;> simp only [Value.Related] at h ⊢
      exact Value.allRelated_swap h
  | .method ref, w, h => by
      cases w <;> simp only [Value.Related] at h ⊢
      exact ⟨h.1, h.2.symm⟩
  | .form f, w, h => by
      cases w <;> simp only [Value.Related] at h ⊢
      exact h.swap

theorem Form.Related.swap : ∀ {f g : Form}, f.Related pairs g → g.Related pairs.swap f
  | .variable _, g, h | .flag _, g, h => by
      cases g <;> simp only [Form.Related] at h ⊢
      exact h.symm
  | .literal v, g, h => by
      cases g <;> simp only [Form.Related] at h ⊢
      exact h.swap
  | .quoted f, g, h => by
      cases g <;> simp only [Form.Related] at h ⊢
      exact h.swap
  | .call method arguments, g, h => by
      cases g <;> simp only [Form.Related] at h ⊢
      exact ⟨h.1.symm, Form.allRelated_swap h.2⟩

theorem Value.allRelated_swap : ∀ {vs ws : List Value},
    Value.AllRelated pairs vs ws → Value.AllRelated pairs.swap ws vs
  | [], ws, h => by cases ws <;> simp only [Value.AllRelated] at h ⊢
  | v :: rest, ws, h => by
      cases ws <;> simp only [Value.AllRelated] at h ⊢
      exact ⟨h.1.swap, Value.allRelated_swap h.2⟩

theorem Form.allRelated_swap : ∀ {fs gs : List Form},
    Form.AllRelated pairs fs gs → Form.AllRelated pairs.swap gs fs
  | [], gs, h => by cases gs <;> simp only [Form.AllRelated] at h ⊢
  | f :: rest, gs, h => by
      cases gs <;> simp only [Form.AllRelated] at h ⊢
      exact ⟨h.1.swap, Form.allRelated_swap h.2⟩

end

/-- Two values are equal exactly if the corresponding ones are. -/
theorem Value.Related.eq_iff {v w v' w' : Value} (hv : v.Related pairs v')
    (hw : w.Related pairs w') : v = w ↔ v' = w' := by
  constructor
  · rintro rfl
    exact hv.right_unique hw
  · rintro rfl
    exact hv.swap.right_unique hw.swap

end ArityScript
