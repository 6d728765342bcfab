import Mathlib.Tactic

/-!
# Clean-up after calls

A program makes calls one after the other.  After a call that fails it jumps to the code that
gives back what it has got, in the reverse order, and ends with a status.

A result is the list of the calls with the status.  `call` puts a call in front; `Cleans` and
`Reports` say what is given back and what the status says, with one rule for each way to
continue.
-/

namespace CleanUp

section CleanUp

variable {C R : Type}

/-- A call in front of what follows. -/
def andThen (c : C) (r : List C × Nat) : List C × Nat :=
  (c :: r.1, r.2)

/-- A call, and where it goes from there: to `onFail` if the answer is not zero. -/
def call (answer : C → Int) (c : C) (onFail rest : List C × Nat) : List C × Nat :=
  andThen c (if answer c ≠ 0 then onFail else rest)

/-- Every resource that the calls ask for is given back once, after all other calls and in the
reverse order, and then what was held before. -/
def Cleans (creates : C → Option R) (destroy : R → C) (held : List R) (calls : List C) : Prop :=
  ∃ front : List C, (∀ c ∈ front, ∀ r, c ≠ destroy r) ∧
    calls = front ++ ((front.filterMap creates).reverse ++ held).map destroy

/-- The status is zero exactly if no call that counts failed. -/
def Reports (answer : C → Int) (counts : C → Bool) (r : List C × Nat) : Prop :=
  r.2 = 0 ↔ ∀ c ∈ r.1, counts c → answer c = 0

variable {creates : C → Option R} {destroy : R → C} {held : List R} {answer : C → Int}
  {counts : C → Bool} {c : C} {r onFail rest : List C × Nat}

theorem Cleans.finish : Cleans creates destroy held (held.map destroy) :=
  ⟨[], List.forall_mem_nil _, rfl⟩

theorem Cleans.andThen (hc : ∀ x, c ≠ destroy x)
    (h : Cleans creates destroy ((creates c).toList ++ held) r.1) :
    Cleans creates destroy held (CleanUp.andThen c r).1 := by
  obtain ⟨front, hfront, hcalls⟩ := h
  refine ⟨c :: front, List.forall_mem_cons.mpr ⟨hc, hfront⟩, ?_⟩
  show c :: r.1 = _
  rw [hcalls]
  cases hcreates : creates c with
  | none =>
      rw [List.filterMap_cons_none hcreates]
      rfl
  | some x =>
      rw [List.filterMap_cons_some hcreates, List.reverse_cons, List.append_assoc]
      rfl

theorem Cleans.call (hc : ∀ x, c ≠ destroy x)
    (hfail : Cleans creates destroy ((creates c).toList ++ held) onFail.1)
    (hrest : Cleans creates destroy ((creates c).toList ++ held) rest.1) :
    Cleans creates destroy held (call answer c onFail rest).1 := by
  refine Cleans.andThen hc ?_
  split
  · exact hfail
  · exact hrest

theorem call_status_le {n : Nat} (hfail : onFail.2 ≤ n) (hrest : rest.2 ≤ n) :
    (call answer c onFail rest).2 ≤ n := by
  show (if answer c ≠ 0 then onFail else rest).2 ≤ n
  split
  · exact hfail
  · exact hrest

/-- A call that does not count. -/
theorem Reports.andThen (hc : counts c = false) (h : Reports answer counts r) :
    Reports answer counts (CleanUp.andThen c r) := by
  refine Iff.trans h ?_
  show _ ↔ ∀ x ∈ c :: r.1, _
  rw [List.forall_mem_cons, hc]
  exact (and_iff_right (fun hcon => absurd hcon (by decide))).symm

theorem Reports.call (hc : counts c = false) (hfail : Reports answer counts onFail)
    (hrest : Reports answer counts rest) :
    Reports answer counts (call answer c onFail rest) := by
  refine Reports.andThen hc ?_
  split
  · exact hfail
  · exact hrest

/-- A call that counts: the status is not zero after it has failed. -/
theorem Reports.counted (hc : counts c = true) (hfail : onFail.2 ≠ 0)
    (hrest : Reports answer counts rest) :
    Reports answer counts (CleanUp.call answer c onFail rest) := by
  have hforall : (∀ x ∈ c :: (if answer c ≠ 0 then onFail else rest).1, counts x → answer x = 0) ↔
      answer c = 0 ∧ ∀ x ∈ (if answer c ≠ 0 then onFail else rest).1, counts x → answer x = 0 := by
    rw [List.forall_mem_cons, hc]
    exact and_congr_left fun _ => ⟨fun h => h rfl, fun h _ => h⟩
  refine Iff.trans ?_ hforall.symm
  show (if answer c ≠ 0 then onFail else rest).2 = 0 ↔ _
  by_cases hzero : answer c = 0
  · rw [if_neg (not_not.mpr hzero)]
    exact hrest.trans (and_iff_right hzero).symm
  · rw [if_pos hzero]
    exact iff_of_false hfail fun hcon => hzero hcon.1

/-- What is not done on the way out is done after a call that succeeds. -/
theorem mem_call {goal : C} (hne : goal ≠ c) (hfail : goal ∉ onFail.1) :
    goal ∈ (call answer c onFail rest).1 ↔ answer c = 0 ∧ goal ∈ rest.1 := by
  show goal ∈ c :: (if answer c ≠ 0 then onFail else rest).1 ↔ _
  rw [List.mem_cons, or_iff_right hne]
  by_cases hzero : answer c = 0
  · rw [if_neg (not_not.mpr hzero)]
    exact (and_iff_right hzero).symm
  · rw [if_pos hzero]
    exact iff_of_false hfail fun hcon => hzero hcon.1

/-- What happens exactly if no call that stops the program failed. -/
theorem mem_call_iff {goal : C} (hne : goal ≠ c) (hc : counts c = true) (hfail : goal ∉ onFail.1)
    (hrest : goal ∈ rest.1 ↔ ∀ x ∈ rest.1, counts x → answer x = 0) :
    goal ∈ (call answer c onFail rest).1 ↔
      ∀ x ∈ (call answer c onFail rest).1, counts x → answer x = 0 := by
  rw [mem_call hne hfail]
  show _ ↔ ∀ x ∈ c :: (if answer c ≠ 0 then onFail else rest).1, counts x → answer x = 0
  rw [List.forall_mem_cons]
  by_cases hzero : answer c = 0
  · rw [if_neg (not_not.mpr hzero)]
    exact and_congr (iff_of_true hzero fun _ => hzero) hrest
  · exact iff_of_false (fun hcon => hzero hcon.1) fun hcon => hzero (hcon.1 hc)

end CleanUp

end CleanUp
