import ArityScript.Proofs.Closure
import ArityScript.Proofs.Iteration
import Mathlib.Algebra.Ring.Int.Defs

/-!
# Exact arithmetic

Numbers are bounded, and nothing wraps around or is rounded off: a call of an
arithmetic method gives the integer that is asked for, or it fails.  A list is summed
up from the left, so that a sum of its first numbers which does not fit is a failure,
even where the whole sum would fit again.

The methods are called by their names, in any scope in which these names stand for
the standard methods.
-/

namespace ArityScript

/-! ## Integers that are numbers -/

namespace Number

def InRange (value : Int) : Prop :=
  least ≤ value ∧ value ≤ greatest

instance (value : Int) : Decidable (InRange value) :=
  inferInstanceAs (Decidable (_ ∧ _))

theorem ofInt?_eq_none_iff {value : Int} : ofInt? value = none ↔ ¬InRange value := by
  simp [ofInt?, InRange]

/-- Only the quotient of the least number by minus one is not a number. -/
theorem inRange_tdiv {a b : Number} (hquotient : ¬(a.toInt = least ∧ b.toInt = -1)) :
    InRange (a.toInt.tdiv b.toInt) := by
  have hleast := a.least_le_toInt
  have hgreatest := a.toInt_le_greatest
  unfold InRange
  unfold least greatest at *
  by_cases hsmall : b.toInt.natAbs ≤ 1
  · obtain hb | hb | hb : b.toInt = 0 ∨ b.toInt = 1 ∨ b.toInt = -1 := by omega
    · simp [hb]
    · rw [hb, Int.tdiv_one]
      omega
    · rw [hb, Int.tdiv_neg, Int.tdiv_one]
      omega
  · have hhalf : (a.toInt.tdiv b.toInt).natAbs ≤ a.toInt.natAbs / 2 := by
      rw [Int.natAbs_tdiv]
      exact Nat.div_le_div_left (by omega) (by omega)
    omega

theorem tmod_eq_zero_or_sign_eq (a b : Int) : a.tmod b = 0 ∨ (a.tmod b).sign = a.sign := by
  rw [Int.sign_tmod, ← Int.sign_eq_zero_iff_zero, Int.sign_tmod]
  split
  · exact .inl rfl
  · exact .inr rfl

theorem inRange_tmod (a b : Number) : InRange (a.toInt.tmod b.toInt) := by
  have hleast := a.least_le_toInt
  have hgreatest := a.toInt_le_greatest
  have hle : (a.toInt.tmod b.toInt).natAbs ≤ a.toInt.natAbs := by
    rw [Int.natAbs_tmod]
    exact Nat.mod_le _ _
  unfold InRange
  unfold least greatest at *
  rcases tmod_eq_zero_or_sign_eq a.toInt b.toInt with hzero | hsign
  · omega
  · rcases Int.lt_or_le a.toInt 0 with hneg | hnonneg
    · rw [Int.sign_eq_neg_one_of_neg hneg, Int.sign_eq_neg_one_iff_neg] at hsign
      omega
    · omega

end Number

/-! ## Outcomes -/

namespace Builtin

/-- The outcome of an operation with an exact result: the number, if the result is
one, and an overflow of the operation otherwise. -/
inductive Exact (operation : String) (result : Int) : Outcome → Prop where
  | fits {n : Number} : n.toInt = result → Exact operation result (.ok (.number n))
  | overflow : ¬Number.InRange result →
      Exact operation result (.error (.host (.overflow operation)))

/-- The outcomes of a division: the quotient is cut off towards zero, and the remainder
is what is missing from the dividend. -/
inductive Divides (a b : Number) : (quotient remainder : Outcome) → Prop where
  | byZero : b.toInt = 0 →
      Divides a b (.error (.host .divisionByZero)) (.error (.host .divisionByZero))
  | overflow : a.toInt = Number.least → b.toInt = -1 →
      Divides a b (.error (.host (.overflow "division")))
        (.error (.host (.overflow "remainder")))
  | divides {q r : Number} : b.toInt ≠ 0 → ¬(a.toInt = Number.least ∧ b.toInt = -1) →
      a.toInt = q.toInt * b.toInt + r.toInt → r.toInt.natAbs < b.toInt.natAbs →
      r.toInt = 0 ∨ r.toInt.sign = a.toInt.sign →
      Divides a b (.ok (.number q)) (.ok (.number r))

/-- Every front part of a list of numbers has a total that is a number. -/
def Admits (total : List Int → Int) (numbers : List Number) : Prop :=
  ∀ front, front <+: numbers → Number.InRange (total (front.map Int64.toInt))

/-- The outcome of a total of a list: the total, if all elements are numbers and all
totals on the way fit, and otherwise the failure at the first element that is not a
number or with which the total no longer fits. -/
inductive Totals (operation : String) (total : List Int → Int) :
    List Value → Outcome → Prop where
  | exact {numbers : List Number} {n : Number} :
      Admits total numbers → n.toInt = total (numbers.map Int64.toInt) →
      Totals operation total (numbers.map .number) (.ok (.number n))
  | notNumber {front : List Number} {value : Value} (rest : List Value) :
      Admits total front → (∀ n, value ≠ .number n) →
      Totals operation total (front.map .number ++ value :: rest)
        (.error (.error (.eval (.ofCause (.wrongType "number" value.typeName)))))
  | overflow {front : List Number} {n : Number} (rest : List Value) :
      Admits total front → ¬Number.InRange (total ((front ++ [n]).map Int64.toInt)) →
      Totals operation total (front.map .number ++ .number n :: rest)
        (.error (.host (.overflow operation)))

theorem checked_of_toInt_eq {operation : String} {result : Int} {n : Number}
    (hn : n.toInt = result) : checked operation result = .ok n := by
  simp only [checked, Number.ofInt?_eq_some_iff.2 hn]

theorem checked_of_not_inRange {operation : String} {result : Int}
    (hrange : ¬Number.InRange result) :
    checked operation result = .error (.host (.overflow operation)) := by
  simp only [checked, Number.ofInt?_eq_none_iff.2 hrange]

theorem exists_toInt_eq {result : Int} (hrange : Number.InRange result) :
    ∃ n : Number, n.toInt = result := by
  cases hn : Number.ofInt? result with
  | none => exact absurd hrange (Number.ofInt?_eq_none_iff.1 hn)
  | some n => exact ⟨n, Number.ofInt?_eq_some_iff.1 hn⟩

theorem exact_checked (operation : String) (result : Int) :
    Exact operation result ((checked operation result).map .number) := by
  by_cases hrange : Number.InRange result
  · obtain ⟨n, hn⟩ := exists_toInt_eq hrange
    rw [checked_of_toInt_eq hn]
    exact .fits hn
  · rw [checked_of_not_inRange hrange]
    exact .overflow hrange

/-! ## Methods of two numbers -/

/-- Called on two numbers, a native method ends with an outcome at once. -/
def Computes (native : Native) (a b : Number) (outcome : Outcome) : Prop :=
  ∀ arguments : Arguments, arguments.find? "a" = some (.number a) →
    arguments.find? "b" = some (.number b) → native arguments = .finish outcome

section

variable (a b : Number) (operation : String) (compute : Int → Int → Int)

theorem computes_binary (compute : Number → Number → Outcome) :
    Computes (binary compute) a b (compute a b) := by
  intro arguments ha hb
  have hfirst : Arguments.as Number arguments "a" = .ok a := by
    simp only [Arguments.as, Arguments.value, ha]
    rfl
  have hsecond : Arguments.as Number arguments "b" = .ok b := by
    simp only [Arguments.as, Arguments.value, hb]
    rfl
  simp only [binary, Native.ofFunction, hfirst, hsecond]
  rfl

theorem computes_exact : Computes (exact operation compute) a b
    ((checked operation (compute a.toInt b.toInt)).map .number) := by
  intro arguments ha hb
  rw [exact, computes_binary a b _ arguments ha hb]
  cases checked operation (compute a.toInt b.toInt) <;> rfl

theorem computes_divided_of_zero {b : Number} (hzero : b.toInt = 0) :
    Computes (divided operation compute) a b (.error (.host .divisionByZero)) := by
  intro arguments ha hb
  rw [divided, computes_binary a b _ arguments ha hb, if_pos hzero]

theorem computes_divided_of_overflow {a b : Number} (hzero : b.toInt ≠ 0)
    (hrange : ¬Number.InRange (a.toInt.tdiv b.toInt)) :
    Computes (divided operation compute) a b (.error (.host (.overflow operation))) := by
  intro arguments ha hb
  rw [divided, computes_binary a b _ arguments ha hb, if_neg hzero,
    checked_of_not_inRange hrange]
  rfl

theorem computes_divided_of_inRange {a b : Number} (hzero : b.toInt ≠ 0)
    (hrange : Number.InRange (a.toInt.tdiv b.toInt)) :
    Computes (divided operation compute) a b
      ((checked operation (compute a.toInt b.toInt)).map .number) := by
  intro arguments ha hb
  obtain ⟨q, hq⟩ := exists_toInt_eq hrange
  rw [divided, computes_binary a b _ arguments ha hb, if_neg hzero, checked_of_toInt_eq hq]
  cases checked operation (compute a.toInt b.toInt) <;> rfl

/-- A quotient and a remainder are given together or refused together. -/
theorem exists_divides : ∃ first second, Divides a b first second ∧
    Computes divide a b first ∧ Computes remainder a b second := by
  by_cases hzero : b.toInt = 0
  · exact ⟨_, _, .byZero hzero, computes_divided_of_zero a _ _ hzero,
      computes_divided_of_zero a _ _ hzero⟩
  by_cases hquotient : a.toInt = Number.least ∧ b.toInt = -1
  · have hrange : ¬Number.InRange (a.toInt.tdiv b.toInt) := by
      rw [hquotient.1, hquotient.2]
      decide
    exact ⟨_, _, .overflow hquotient.1 hquotient.2,
      computes_divided_of_overflow _ _ hzero hrange,
      computes_divided_of_overflow _ _ hzero hrange⟩
  · have hrange := Number.inRange_tdiv hquotient
    obtain ⟨q, hq⟩ := exists_toInt_eq hrange
    obtain ⟨r, hr⟩ := exists_toInt_eq (Number.inRange_tmod a b)
    have hdivide := computes_divided_of_inRange "division" Int.tdiv hzero hrange
    have hremainder := computes_divided_of_inRange "remainder" Int.tmod hzero hrange
    rw [checked_of_toInt_eq hq] at hdivide
    rw [checked_of_toInt_eq hr] at hremainder
    refine ⟨_, _, .divides hzero hquotient ?_ ?_ ?_, hdivide, hremainder⟩
    · rw [hq, hr, Int.tdiv_mul_add_tmod]
    · rw [hr, Int.natAbs_tmod]
      exact Nat.mod_lt _ (Int.natAbs_pos.2 hzero)
    · rw [hr]
      exact Number.tmod_eq_zero_or_sign_eq a.toInt b.toInt

end

/-! ## Totals -/

theorem accumulate_number (operation : String) (compute : Int → Int → Int) (total n : Number) :
    accumulate operation compute total (.number n) =
      checked operation (compute total.toInt n.toInt) := rfl

theorem accumulate_of_ne {operation : String} {compute : Int → Int → Int} {total : Number}
    {value : Value} (hvalue : ∀ n, value ≠ .number n) :
    accumulate operation compute total value =
      .error (.error (.eval (.ofCause (.wrongType "number" value.typeName)))) := by
  cases value with
  | number n => exact absurd rfl (hvalue n)
  | _ => rfl

theorem Admits.concat {total : List Int → Int} {front : List Number} {n : Number}
    (hfront : Admits total front)
    (hrange : Number.InRange (total ((front ++ [n]).map Int64.toInt))) :
    Admits total (front ++ [n]) := by
  intro part hpart
  rcases List.prefix_concat_iff.1 hpart with rfl | hpart
  · exact hrange
  · exact hfront part hpart

/-- The numbers so far and their total are known, and the rest of the list is gone
through. -/
theorem totals_foldlM {operation : String} {total : List Int → Int} {compute : Int → Int → Int}
    (hstep : ∀ front n, total (front ++ [n]) = compute (total front) n) (values : List Value)
    {front : List Number} {n : Number} (hfront : Admits total front)
    (hn : n.toInt = total (front.map Int64.toInt)) :
    Totals operation total (front.map .number ++ values)
      ((values.foldlM (accumulate operation compute) n).map .number) := by
  induction values generalizing front n with
  | nil =>
      rw [List.append_nil]
      exact .exact hfront hn
  | cons value rest ih =>
      rw [List.foldlM_cons]
      by_cases hvalue : ∃ m, value = .number m
      · obtain ⟨m, rfl⟩ := hvalue
        have htotal : compute n.toInt m.toInt = total ((front ++ [m]).map Int64.toInt) := by
          rw [hn, ← hstep, List.map_append, List.map_singleton]
        rw [accumulate_number, htotal]
        -- With the number taken in, the front part is longer by one.
        by_cases hrange : Number.InRange (total ((front ++ [m]).map Int64.toInt))
        · obtain ⟨next, hnext⟩ := exists_toInt_eq hrange
          have hrest := ih (hfront.concat hrange) hnext
          rw [List.map_append, List.append_assoc] at hrest
          rw [checked_of_toInt_eq hnext]
          exact hrest
        · rw [checked_of_not_inRange hrange]
          exact .overflow rest hfront hrange
      · have hother : ∀ m, value ≠ .number m := fun m hm => hvalue ⟨m, hm⟩
        rw [accumulate_of_ne hother]
        exact .notNumber rest hfront hother

theorem admits_nil {total : List Int → Int} (hrange : Number.InRange (total [])) :
    Admits total [] := by
  intro front hfront
  rw [List.prefix_nil.1 hfront]
  exact hrange

theorem accumulated_ofList {arguments : Arguments} {values : List Value}
    (hlist : arguments.find? "list" = some (.list values)) (operation : String)
    (compute : Int → Int → Int) (start : Number) :
    accumulated operation compute start arguments =
      .finish ((values.foldlM (accumulate operation compute) start).map .number) := by
  have hvalue : Arguments.value arguments "list" = .ok (.list values) := by
    simp only [Arguments.value, hlist]
  rw [accumulated_eq hvalue rfl, Elements.toList_ofList]

theorem toOption_map {ε α β : Type} (f : α → β) (result : Except ε α) :
    (result.map f).toOption = result.toOption.map f := by
  cases result <;> rfl

theorem toOption_bind {ε α β : Type} (result : Except ε α) (next : α → Except ε β) :
    (result >>= next).toOption = result.toOption.bind fun a => (next a).toOption := by
  cases result <;> rfl

theorem toOption_checked (operation : String) (result : Int) :
    (checked operation result).toOption = Number.ofInt? result := by
  unfold checked
  split
  next n hn => exact hn.symm
  next hnone => exact hnone.symm

/-- A list of numbers is totalled as by any other way to take in one number after the
other that gives and refuses the same results. -/
theorem toOption_foldlM_accumulate {operation : String} {compute : Int → Int → Int}
    {each : Value → Number → Except Error Value}
    (heach : ∀ total n : Number, (each (.number total) n).toOption =
      (Number.ofInt? (compute total.toInt n.toInt)).map .number)
    (numbers : List Number) (start : Number) :
    ((numbers.map .number).foldlM (accumulate operation compute) start).toOption.map
        Value.number =
      (numbers.foldlM each (.number start)).toOption := by
  induction numbers generalizing start with
  | nil => rfl
  | cons n rest ih =>
      rw [List.map_cons, List.foldlM_cons, List.foldlM_cons, accumulate_number, toOption_bind,
        toOption_bind, toOption_checked, heach, Option.map_bind, Option.bind_map]
      congr 1
      funext next
      exact ih next

end Builtin

/-! ## Calls -/

/-- In a scope a name stands for the standard method of that name. -/
def Builtin.IsStandard (store : Store) (chain : Chain) (name : String) : Prop :=
  ∃ ref signature native, Builtin.methods.lookup name = some (signature, native) ∧
    ref.name = name ∧ callee store chain name = .ok (ref, ⟨signature, .native native⟩)

/-- A call with literals has an outcome and leaves the store as it is, on any level on
which the literals can be evaluated. -/
def Store.Gives (store : Store) (chain : Chain) (name : String) (values : List Value)
    (outcome : Outcome) : Prop :=
  ∀ levels, evalAt (levels + 2) chain (.call name (values.map .literal)) store =
    ((outcome.inMethod name).mapError (Error.inCall (.call name (values.map .literal))), store)

theorem Builtin.IsStandard.gives {store : Store} {chain : Chain} {name : String}
    (hstandard : Builtin.IsStandard store chain name) {parameters : List String}
    {native : Native}
    (hmethod : Builtin.methods.lookup name = some (.ofRequired parameters, native))
    {values : List Value} (hlength : values.length = parameters.length) {outcome : Outcome}
    (hnative : native (NameMap.empty.insertAll (parameters.zip values)) = .finish outcome) :
    store.Gives chain name values outcome := by
  obtain ⟨ref, signature, found, hfound, hname, hcallee⟩ := hstandard
  rw [hmethod] at hfound
  cases hfound
  intro levels
  have hliteral : ∀ value, evalAt (levels + 1) chain (.literal value) store =
      (.ok value, store) := fun _ => rfl
  have hbind := bindArguments_literals name hliteral hlength
  rw [evalAt_of_bound hcallee hbind]
  simp only [invoke, hnative, Program.run, hname]

theorem toOption_mapError_inMethod (outcome : Outcome) (name : String) (call : Form) :
    ((outcome.inMethod name).mapError (Error.inCall call)).toOption = outcome.toOption := by
  rcases outcome with (error | failure) | value <;> rfl

/-- A call on a list of numbers ends as the calls on a total and a number do that are
made for its elements from the left: with the same value, or both fail. -/
def Store.Accumulates (store : Store) (chain : Chain) (whole each : String) (start : Number)
    (numbers : List Number) : Prop :=
  ∀ levels,
    (evalAt (levels + 2) chain (.call whole [.literal (.list (numbers.map .number))])
      store).1.toOption =
    (numbers.foldlM (fun total n =>
      (evalAt (levels + 2) chain (.call each [.literal total, .literal (.number n)]) store).1)
      (.number start)).toOption

section

variable {store : Store} {chain : Chain} {name : String} {native : Native}
  (hstandard : Builtin.IsStandard store chain name)

include hstandard

theorem Builtin.IsStandard.gives_operands
    (hmethod : methods.lookup name = some (operands, native)) {a b : Number} {outcome : Outcome}
    (hnative : Computes native a b outcome) :
    store.Gives chain name [.number a, .number b] outcome := by
  refine hstandard.gives hmethod rfl (hnative _ ?_ ?_)
  · rw [NameMap.find?_insertAll]
    rfl
  · rw [NameMap.find?_insertAll]
    rfl

theorem Builtin.IsStandard.exists_exact {operation : String} {compute : Int → Int → Int}
    (hmethod : methods.lookup name = some (operands, exact operation compute)) (a b : Number) :
    ∃ outcome, Exact operation (compute a.toInt b.toInt) outcome ∧
      store.Gives chain name [.number a, .number b] outcome :=
  ⟨_, exact_checked operation _,
    hstandard.gives_operands hmethod (computes_exact a b operation compute)⟩

theorem Builtin.IsStandard.gives_accumulated {operation : String} {compute : Int → Int → Int}
    {start : Number}
    (hmethod : methods.lookup name =
      some (.ofRequired ["list"], accumulated operation compute start)) (values : List Value) :
    store.Gives chain name [.list values]
      ((values.foldlM (accumulate operation compute) start).map .number) := by
  refine hstandard.gives hmethod rfl (accumulated_ofList ?_ operation compute start)
  rw [NameMap.find?_insertAll]
  rfl

end

theorem Builtin.IsStandard.accumulates {store : Store} {chain : Chain}
    {whole each operation stepwise : String} {compute : Int → Int → Int} {start : Number}
    (hwhole : IsStandard store chain whole) (heach : IsStandard store chain each)
    (hwholeMethod : methods.lookup whole =
      some (.ofRequired ["list"], accumulated operation compute start))
    (heachMethod : methods.lookup each = some (operands, exact stepwise compute))
    (numbers : List Number) : store.Accumulates chain whole each start numbers := by
  intro levels
  have hsum := hwhole.gives_accumulated hwholeMethod (numbers.map .number) levels
  rw [List.map_singleton] at hsum
  rw [hsum, toOption_mapError_inMethod, toOption_map]
  apply toOption_foldlM_accumulate
  intro total n
  have hstep := heach.gives_operands heachMethod
    (computes_exact total n stepwise compute) levels
  rw [List.map_cons, List.map_singleton] at hstep
  rw [hstep, toOption_mapError_inMethod, toOption_map, toOption_checked]

/-- Where the names of arithmetic stand for the standard methods, arithmetic is exact
or fails.  Sums, differences and products of two numbers overflow only where the
result is not a number; quotients and remainders only fail for a divisor of zero and
for the least number divided by minus one.  A list is totalled up to the first
failure, as its elements would be one after the other. -/
theorem arithmetic_exact_or_fails {store : Store} {chain : Chain}
    (hstandard : ∀ name ∈ ["+", "-", "*", "/", "%", "sum", "mul"],
      Builtin.IsStandard store chain name) :
    (∀ a b : Number,
      (∃ outcome, Builtin.Exact "addition" (a.toInt + b.toInt) outcome ∧
        store.Gives chain "+" [.number a, .number b] outcome) ∧
      (∃ outcome, Builtin.Exact "subtraction" (a.toInt - b.toInt) outcome ∧
        store.Gives chain "-" [.number a, .number b] outcome) ∧
      (∃ outcome, Builtin.Exact "multiplication" (a.toInt * b.toInt) outcome ∧
        store.Gives chain "*" [.number a, .number b] outcome) ∧
      ∃ quotient remainder, Builtin.Divides a b quotient remainder ∧
        store.Gives chain "/" [.number a, .number b] quotient ∧
        store.Gives chain "%" [.number a, .number b] remainder) ∧
    (∀ values : List Value,
      (∃ outcome, Builtin.Totals "sum" List.sum values outcome ∧
        store.Gives chain "sum" [.list values] outcome) ∧
      ∃ outcome, Builtin.Totals "product" List.prod values outcome ∧
        store.Gives chain "mul" [.list values] outcome) ∧
    ∀ numbers : List Number,
      store.Accumulates chain "sum" "+" 0 numbers ∧
      store.Accumulates chain "mul" "*" 1 numbers := by
  simp only [List.forall_mem_cons] at hstandard
  obtain ⟨hadd, hsubtract, hmultiply, hdivide, hremainder, hsum, hproduct, -⟩ := hstandard
  refine ⟨?_, ?_, ?_⟩
  · intro a b
    obtain ⟨quotient, rest, hdivides, hquotient, hrest⟩ := Builtin.exists_divides a b
    exact ⟨hadd.exists_exact rfl a b, hsubtract.exists_exact rfl a b,
      hmultiply.exists_exact rfl a b, quotient, rest, hdivides,
      hdivide.gives_operands rfl hquotient, hremainder.gives_operands rfl hrest⟩
  · intro values
    refine ⟨⟨_, ?_, hsum.gives_accumulated rfl values⟩,
      ⟨_, ?_, hproduct.gives_accumulated rfl values⟩⟩
    · exact Builtin.totals_foldlM (by simp) values (Builtin.admits_nil (by decide)) rfl
    · exact Builtin.totals_foldlM (by simp) values (Builtin.admits_nil (by decide)) rfl
  · intro numbers
    exact ⟨hsum.accumulates hadd rfl rfl numbers, hproduct.accumulates hmultiply rfl rfl numbers⟩

set_option maxRecDepth 2000 in
/-- In an environment that was made with the standard methods, minus seven divided by
two is minus three, and minus one remains: nothing else is exact. -/
theorem global_arithmetic_exact_or_fails :
    (∀ name ∈ ["+", "-", "*", "/", "%", "sum", "mul"],
      Builtin.IsStandard (Builtin.createGlobal .empty).2 ⟨0, []⟩ name) ∧
    (Builtin.createGlobal .empty).2.Gives ⟨0, []⟩ "/" [.number (-7), .number 2]
      (.ok (.number (-3))) ∧
    (Builtin.createGlobal .empty).2.Gives ⟨0, []⟩ "%" [.number (-7), .number 2]
      (.ok (.number (-1))) := by
  have hstandard : ∀ name ∈ ["+", "-", "*", "/", "%", "sum", "mul"],
      Builtin.IsStandard (Builtin.createGlobal .empty).2 ⟨0, []⟩ name := by
    simp only [List.forall_mem_cons]
    exact ⟨⟨_, _, _, rfl, rfl, rfl⟩, ⟨_, _, _, rfl, rfl, rfl⟩, ⟨_, _, _, rfl, rfl, rfl⟩,
      ⟨_, _, _, rfl, rfl, rfl⟩, ⟨_, _, _, rfl, rfl, rfl⟩, ⟨_, _, _, rfl, rfl, rfl⟩,
      ⟨_, _, _, rfl, rfl, rfl⟩, by simp⟩
  refine ⟨hstandard, ?_⟩
  obtain ⟨-, -, -, first, second, hdivides, hquotient, hremainder⟩ :=
    (arithmetic_exact_or_fails hstandard).1 (-7) 2
  have ha : (-7 : Number).toInt = -7 := rfl
  have hb : (2 : Number).toInt = 2 := rfl
  cases hdivides with
  | byZero hzero => exact absurd hzero (by decide)
  | overflow hleast _ => exact absurd hleast (by decide)
  | @divides q r _ _ hdividend hlt hsign =>
      rw [ha, hb] at hdividend
      rw [hb] at hlt
      have hminus : (-7 : Int).sign = -1 := rfl
      rw [ha, hminus, Int.sign_eq_neg_one_iff_neg] at hsign
      have hq : q.toInt = (-3 : Number).toInt := by
        change q.toInt = -3
        omega
      have hr : r.toInt = (-1 : Number).toInt := by
        change r.toInt = -1
        omega
      rw [Int64.toInt_inj.1 hq] at hquotient
      rw [Int64.toInt_inj.1 hr] at hremainder
      exact ⟨hquotient, hremainder⟩

end ArityScript
