import ArityScript.Evaluation
import ArityScript.Proofs.Iteration

/-!
# The members of a range

A range is read by taking steps from its first number.  What the steps reach is an
arithmetic progression: the member at each place is known, and so is their number,
which a division finds without any steps.  No step leaves the numbers, also in a
range that ends with the greatest one.

The methods that take a list or a range do with a range what they do with the list
of its members.
-/

namespace ArityScript

namespace Range

section

variable {range : Range} {member after : Number}

/-! ## Steps -/

theorem next?_eq_some_iff :
    range.next? member = some after ↔
      after.toInt = member.toInt + range.stride ∧ after ≤ range.stop := by
  unfold next?
  constructor
  · intro hnext
    split at hnext
    next candidate hcandidate =>
      rw [Number.ofInt?_eq_some_iff] at hcandidate
      split at hnext
      next hle =>
        cases hnext
        exact ⟨hcandidate, hle⟩
      next => cases hnext
    next => cases hnext
  · rintro ⟨hafter, hle⟩
    rw [Number.ofInt?_eq_some_iff.2 hafter]
    exact if_pos hle

/-- There is no next member exactly if a step passes the last admissible number.
It does so before it leaves the numbers. -/
theorem next?_eq_none_iff :
    range.next? member = none ↔ range.stop.toInt < member.toInt + range.stride := by
  constructor
  · intro hnone
    apply Int.not_le.1
    intro hle
    have hstride := range.stride_pos
    have hleast := Number.least_le_toInt member
    have hgreatest := Number.toInt_le_greatest range.stop
    obtain ⟨after, hafter⟩ :
        ∃ after, Number.ofInt? (member.toInt + range.stride) = some after := by
      unfold Number.ofInt?
      rw [if_pos ⟨by omega, by omega⟩]
      exact ⟨_, rfl⟩
    have hvalue := Number.ofInt?_eq_some_iff.1 hafter
    have hstop : after ≤ range.stop := by
      rw [Int64.le_iff_toInt_le]
      omega
    rw [next?_eq_some_iff.2 ⟨hvalue, hstop⟩] at hnone
    cases hnone
  · intro hlt
    cases hnext : range.next? member with
    | none => rfl
    | some after =>
        obtain ⟨hafter, hle⟩ := next?_eq_some_iff.1 hnext
        rw [Int64.le_iff_toInt_le] at hle
        omega

theorem membersFrom_of_none (hnext : range.next? member = none) :
    range.membersFrom member = [member] := by
  rw [membersFrom]
  split
  next => rfl
  next hsome => simp [hnext] at hsome

theorem membersFrom_of_some (hnext : range.next? member = some after) :
    range.membersFrom member = member :: range.membersFrom after := by
  rw [membersFrom]
  split
  next hnone => simp [hnext] at hnone
  next hsome =>
    rw [hnext] at hsome
    cases hsome
    rfl

theorem membersFrom_ne_nil (range : Range) (member : Number) :
    range.membersFrom member ≠ [] := by
  cases hnext : range.next? member with
  | none => simp [membersFrom_of_none hnext]
  | some after => simp [membersFrom_of_some hnext]

/-! ## Places -/

/-- The places that there are from an admissible member on, and the member at each. -/
theorem membersFrom_places (hmember : member ≤ range.stop) (i : Nat) :
    (i < (range.membersFrom member).length ↔
        member.toInt + i * range.stride ≤ range.stop.toInt) ∧
      ∀ h : i < (range.membersFrom member).length,
        ((range.membersFrom member)[i]).toInt = member.toInt + i * range.stride := by
  induction i generalizing member with
  | zero =>
      rw [Int64.le_iff_toInt_le] at hmember
      refine ⟨by simp [List.length_pos_iff, membersFrom_ne_nil, hmember], fun h => ?_⟩
      cases hnext : range.next? member with
      | none => simp [membersFrom_of_none hnext]
      | some after => simp [membersFrom_of_some hnext]
  | succ i ih =>
      have hplace : member.toInt + ((i + 1 : Nat) : Int) * range.stride =
          member.toInt + range.stride + i * range.stride := by
        rw [Int.natCast_succ, Int.add_mul, Int.one_mul]
        omega
      rw [hplace]
      cases hnext : range.next? member with
      | none =>
          have hpassed := next?_eq_none_iff.1 hnext
          have hsteps : 0 ≤ (i : Int) * range.stride :=
            Int.mul_nonneg (Int.natCast_nonneg i) (Int.le_of_lt range.stride_pos)
          simp only [membersFrom_of_none hnext, List.length_singleton]
          exact ⟨by omega, by omega⟩
      | some after =>
          obtain ⟨hvalue, hstop⟩ := next?_eq_some_iff.1 hnext
          rw [← hvalue]
          simpa only [membersFrom_of_some hnext, List.length_cons, Nat.add_lt_add_iff_right,
            List.getElem_cons_succ] using ih hstop

end

variable (range : Range)

theorem first?_of_le (hle : range.start ≤ range.stop) :
    range.first? = some range.start ∧ range.members = range.membersFrom range.start := by
  have hfirst : range.first? = some range.start := if_pos hle
  exact ⟨hfirst, by rw [members, hfirst]⟩

theorem first?_of_lt (hlt : range.stop < range.start) :
    range.first? = none ∧ range.members = [] := by
  have hfirst : range.first? = none := if_neg (Int64.not_le.2 hlt)
  exact ⟨hfirst, by rw [members, hfirst]⟩

theorem members_places (i : Nat) :
    (i < range.members.length ↔
        range.start.toInt + i * range.stride ≤ range.stop.toInt) ∧
      ∀ h : i < range.members.length,
        (range.members[i]).toInt = range.start.toInt + i * range.stride := by
  by_cases hle : range.start ≤ range.stop
  · obtain ⟨_, hmembers⟩ := range.first?_of_le hle
    simp only [hmembers]
    exact membersFrom_places hle i
  · have hlt := Int64.not_le.1 hle
    obtain ⟨_, hmembers⟩ := range.first?_of_lt hlt
    have hsteps : 0 ≤ (i : Int) * range.stride :=
      Int.mul_nonneg (Int.natCast_nonneg i) (Int.le_of_lt range.stride_pos)
    rw [Int64.lt_iff_toInt_lt] at hlt
    simp only [hmembers, List.length_nil]
    exact ⟨by omega, by omega⟩

/-- Reading a range goes from each member to the one at the next place, and ends
after the last one. -/
theorem next?_getElem_members (i : Nat) (hi : i < range.members.length) :
    range.next? range.members[i] = range.members[i + 1]? := by
  have hvalue := (range.members_places i).2 hi
  obtain ⟨hplace, hnext⟩ := range.members_places (i + 1)
  rw [Int.natCast_succ, Int.add_mul, Int.one_mul] at hplace hnext
  by_cases hmore : i + 1 < range.members.length
  · have hle := hplace.1 hmore
    rw [List.getElem?_eq_getElem hmore, next?_eq_some_iff, Int64.le_iff_toInt_le, hnext hmore,
      hvalue]
    exact ⟨by omega, hle⟩
  · have hpassed := mt hplace.2 hmore
    rw [List.getElem?_eq_none (Nat.not_lt.1 hmore), next?_eq_none_iff, hvalue]
    omega

theorem first?_eq_head? : range.first? = range.members[0]? := by
  by_cases hle : range.start ≤ range.stop
  · obtain ⟨hfirst, hmembers⟩ := range.first?_of_le hle
    have hpos := List.length_pos_iff.2 (membersFrom_ne_nil range range.start)
    have hplace := (membersFrom_places hle 0).2 hpos
    rw [hfirst, hmembers, List.getElem?_eq_getElem hpos, Option.some.injEq]
    apply Int64.toInt.inj
    simpa using hplace.symm
  · obtain ⟨hfirst, hmembers⟩ := range.first?_of_lt (Int64.not_le.1 hle)
    rw [hfirst, hmembers]
    rfl

theorem sorted_members : range.members.Pairwise (· < ·) := by
  rw [List.pairwise_iff_getElem]
  intro i j hi hj hlt
  have hsteps : (i : Int) * range.stride < j * range.stride :=
    Int.mul_lt_mul_of_pos_right (Int.ofNat_lt.2 hlt) range.stride_pos
  rw [Int64.lt_iff_toInt_lt, (range.members_places i).2 hi, (range.members_places j).2 hj]
  omega

/-! ## Their number -/

theorem isEmpty_iff : range.isEmpty = true ↔ range.members = [] := by
  rw [isEmpty, decide_eq_true_iff]
  constructor
  · exact fun hlt => (range.first?_of_lt hlt).2
  · intro hnil
    apply Int64.not_le.1
    intro hle
    rw [(range.first?_of_le hle).2] at hnil
    exact membersFrom_ne_nil range range.start hnil

theorem count_eq_length : range.count = range.members.length := by
  unfold count
  split
  next hempty =>
    rw [range.isEmpty_iff.1 hempty]
    rfl
  next hempty =>
    rw [isEmpty, decide_eq_true_iff, Int64.not_lt, Int64.le_iff_toInt_le] at hempty
    have hspan : 0 ≤ range.stop.toInt - range.start.toInt := by omega
    rw [Int.tdiv_eq_ediv_of_nonneg hspan]
    have hstride := range.stride_pos
    obtain ⟨last, hlast⟩ := Int.eq_ofNat_of_zero_le
      (Int.ediv_nonneg hspan (Int.le_of_lt hstride))
    -- The last place is the quotient; the one after it is past the end.
    have hreached := Int.ediv_mul_le (range.stop.toInt - range.start.toInt)
      (Int.ne_of_gt hstride)
    have hpassed := Int.lt_ediv_add_one_mul_self (range.stop.toInt - range.start.toInt) hstride
    rw [hlast] at hreached hpassed ⊢
    have hlt : last < range.members.length := by
      rw [(range.members_places last).1]
      omega
    have hge : ¬ last + 1 < range.members.length := by
      rw [(range.members_places (last + 1)).1, Int.natCast_succ]
      omega
    omega

end Range

/-! ## Ranges as lists -/

namespace Elements

theorem toList_ofRange (range : Range) (member : Number) :
    (ofRange range (some member)).toList = (range.membersFrom member).map .number := by
  fun_induction Range.membersFrom range member with
  | case1 member hnext =>
      rw [toList_of_some rfl, hnext, toList_of_none rfl]
      rfl
  | case2 member after hnext ih =>
      rw [toList_of_some rfl, hnext, ih]
      rfl

theorem exists_ofValue_range (range : Range) :
    ∃ elements, ofValue (.range range) = .ok elements ∧
      elements.toList = range.members.map .number := by
  refine ⟨.ofRange range range.first?, rfl, ?_⟩
  unfold Range.members
  cases range.first? with
  | none => exact toList_of_none rfl
  | some member => exact toList_ofRange range member

end Elements

namespace Builtin

theorem countElements_range (range : Range) :
    countElements (.range range) = .ok range.members.length := by
  rw [countElements, range.count_eq_length]

theorem size_eq {arguments : Arguments} {list : Value} {count : Int}
    (hlist : Arguments.value arguments "list" = .ok list)
    (hcount : countElements list = .ok count) :
    size arguments = .finish (match Number.ofInt? count with
      | some n => .ok (.number n)
      | none => .error (.host (.overflow "size"))) := by
  simp only [size, Native.ofFunction, hlist, hcount, liftM_ok, bind, Except.bind]
  cases Number.ofInt? count <;> rfl

theorem size_range (range : Range) (arguments : Arguments) :
    ((range.members.length : Int) ≤ Number.greatest →
      ∃ n : Number, n.toInt = range.members.length ∧
        size (arguments.insert "list" (.range range)) = .done (.number n)) ∧
    (Number.greatest < (range.members.length : Int) →
      size (arguments.insert "list" (.range range)) = .fail (.host (.overflow "size"))) := by
  have hlist : Arguments.value (arguments.insert "list" (.range range)) "list" =
      .ok (.range range) := by
    simp [Arguments.value]
  rw [size_eq hlist (countElements_range range)]
  constructor
  · intro hle
    obtain ⟨n, hn⟩ : ∃ n, Number.ofInt? range.members.length = some n := by
      unfold Number.ofInt?
      rw [if_pos ⟨by unfold Number.least; omega, hle⟩]
      exact ⟨_, rfl⟩
    rw [hn]
    exact ⟨n, Number.ofInt?_eq_some_iff.1 hn, rfl⟩
  · intro hlt
    have hn : Number.ofInt? range.members.length = none := if_neg (by omega)
    rw [hn]
    rfl

/-- A method that takes elements does the same for a range as for the list of its
members. -/
theorem range_eq_members {native : Native}
    (hmem : native ∈ [first, size, sum, product, filter, map]) (range : Range)
    (arguments : Arguments) :
    native (arguments.insert "list" (.range range)) =
      native (arguments.insert "list" (.list (range.members.map .number))) := by
  obtain ⟨elements, helements, hmembers⟩ := Elements.exists_ofValue_range range
  have hothers : Elements.ofValue (.list (range.members.map .number)) =
      .ok (.ofList (range.members.map .number)) := rfl
  have hlist (value : Value) :
      Arguments.value (arguments.insert "list" value) "list" = .ok value := by
    simp [Arguments.value]
  have has (value : Value) (parameter : String) (hne : parameter ≠ "list") :
      Arguments.as Form (arguments.insert "list" value) parameter =
        Arguments.as Form arguments parameter := by
    simp [Arguments.as, Arguments.value, hne.symm]
  have hrange := hlist (.range range)
  have hnumbers := hlist (.list (range.members.map .number))
  simp only [List.mem_cons, List.not_mem_nil, or_false] at hmem
  rcases hmem with rfl | rfl | rfl | rfl | rfl | rfl
  · rw [first_eq hrange helements, first_eq hnumbers hothers, hmembers, Elements.toList_ofList]
  · have hcount : countElements (.list (range.members.map .number)) =
        .ok range.members.length := by
      simp [countElements]
    rw [size_eq hrange (countElements_range range), size_eq hnumbers hcount]
  · rw [sum, accumulated_eq hrange helements, accumulated_eq hnumbers hothers, hmembers,
      Elements.toList_ofList]
  · rw [product, accumulated_eq hrange helements, accumulated_eq hnumbers hothers, hmembers,
      Elements.toList_ofList]
  · rw [filter_eq hrange helements, filter_eq hnumbers hothers, hmembers,
      Elements.toList_ofList, has _ _ (by decide), has _ _ (by decide)]
  · rw [map_eq hrange helements, map_eq hnumbers hothers, hmembers,
      Elements.toList_ofList, has _ _ (by decide), has _ _ (by decide)]

end Builtin

/-- Reading a range gives the arithmetic progression from its first number, by its
step or by one, to the last member that is not above its end, in increasing order.
A range is empty if it has no members, its size is their number where that is a
number, and the methods on elements treat it as the list of its members. -/
theorem range_as_members (range : Range) :
    range.first? = range.members[0]? ∧
    (∀ i (hi : i < range.members.length),
      range.next? range.members[i] = range.members[i + 1]?) ∧
    (∀ i : Nat, i < range.members.length ↔
      range.start.toInt + i * max range.step.toInt 1 ≤ range.stop.toInt) ∧
    (∀ i (hi : i < range.members.length),
      (range.members[i]).toInt = range.start.toInt + i * max range.step.toInt 1) ∧
    range.members.Pairwise (· < ·) ∧
    (range.isEmpty = true ↔ range.members = []) ∧
    (∀ arguments : Arguments,
      ((range.members.length : Int) ≤ Number.greatest →
        ∃ n : Number, n.toInt = range.members.length ∧
          Builtin.size (arguments.insert "list" (.range range)) = .done (.number n)) ∧
      (Number.greatest < (range.members.length : Int) →
        Builtin.size (arguments.insert "list" (.range range)) =
          .fail (.host (.overflow "size")))) ∧
    ∀ native ∈ [Builtin.first, Builtin.size, Builtin.sum, Builtin.product, Builtin.filter,
        Builtin.map],
      ∀ (evaluate : Evaluator) (call : String) (ref : MethodRef) (signature : Signature)
        (arguments : Arguments) (chain : Chain) (store : Store),
        invoke evaluate call ref ⟨signature, .native native⟩
            (arguments.insert "list" (.range range)) chain store =
          invoke evaluate call ref ⟨signature, .native native⟩
            (arguments.insert "list" (.list (range.members.map .number))) chain store := by
  refine ⟨range.first?_eq_head?, range.next?_getElem_members,
    fun i => (range.members_places i).1, fun i => (range.members_places i).2,
    range.sorted_members, range.isEmpty_iff, Builtin.size_range range, ?_⟩
  intro native hmem evaluate call ref signature arguments chain store
  simp only [invoke, Builtin.range_eq_members hmem]

/-- From the least number to the greatest one by a quarter of all numbers. -/
def quarters : Range :=
  ⟨Int64.minValue, Int64.maxValue, 4611686018427387904⟩

/-- There are four members, and the step from the last one would leave the numbers. -/
theorem quarters_as_members :
    quarters.members.length = 4 ∧ quarters.next? 4611686018427387904 = none := by
  obtain ⟨_, hnext, hplace, hvalue, _⟩ := range_as_members quarters
  have hlast := (hplace 3).2 (by decide)
  have hpassed := mt (hplace 4).1 (by decide)
  have hlength : quarters.members.length = 4 := by omega
  have hfourth : quarters.members[3] = 4611686018427387904 :=
    Int64.toInt.inj ((hvalue 3 hlast).trans (by decide))
  have hend := hnext 3 hlast
  rw [hfourth, List.getElem?_eq_none (by omega)] at hend
  exact ⟨hlength, hend⟩

end ArityScript
