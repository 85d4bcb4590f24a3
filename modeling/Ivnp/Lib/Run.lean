import Mathlib.Data.List.Basic

/-!
Runs of a machine that takes one input at a time, and the invariant rule for
them. A property of the steps of a run is read at the state before each step.
-/

namespace Ivnp.Lib

section Run

variable {State Input : Type*} (step : State → Input → State)

/-- The state after all inputs, oldest first. -/
def run (start : State) (inputs : List Input) : State := inputs.foldl step start

@[simp] theorem run_nil (start : State) : run step start [] = start := rfl

@[simp] theorem run_cons (start : State) (input : Input) (rest : List Input) :
    run step start (input :: rest) = run step (step start input) rest := rfl

@[simp] theorem run_append (start : State) (earlier later : List Input) :
    run step start (earlier ++ later) = run step (run step start earlier) later :=
  List.foldl_append

/-- Every step of the run meets `P` in the state it starts from. -/
def Along (P : State → Input → Prop) : State → List Input → Prop
  | _, [] => True
  | state, input :: rest => P state input ∧ Along P (step state input) rest

instance instDecidableAlong (P : State → Input → Prop) [∀ state input, Decidable (P state input)] :
    ∀ start inputs, Decidable (Along step P start inputs)
  | _, [] => .isTrue trivial
  | start, input :: rest =>
    have := instDecidableAlong P (step start input) rest
    inferInstanceAs (Decidable (P start input ∧ Along step P (step start input) rest))

/-- How many steps of the run meet `p` in the state they start from. -/
def tally (p : State → Input → Bool) : State → List Input → Nat
  | _, [] => 0
  | state, input :: rest => (p state input).toNat + tally p (step state input) rest

variable {step}

variable (P : State → Input → Prop)

@[simp] theorem along_nil (start : State) :
    Along step P start [] := trivial

@[simp] theorem along_cons (start : State) (input : Input) (rest : List Input) :
    Along step P start (input :: rest) ↔
      P start input ∧ Along step P (step start input) rest := Iff.rfl

@[simp] theorem along_append (start : State) (earlier later : List Input) :
    Along step P start (earlier ++ later) ↔
      Along step P start earlier ∧ Along step P (run step start earlier) later := by
  induction earlier generalizing start with
  | nil => simp
  | cons input rest ih => simp [ih, and_assoc]

variable {P : State → Input → Prop} {I : State → Prop} {start : State} {inputs : List Input}

/-- A property that every step meeting `P` keeps holds at the end of every run
whose steps all meet `P`. -/
theorem run_invariant (hstep : ∀ state input, P state input → I state → I (step state input))
    (hstart : I start) (halong : Along step P start inputs) : I (run step start inputs) := by
  induction inputs generalizing start with
  | nil => exact hstart
  | cons input rest ih => exact ih (hstep _ _ halong.1 hstart) halong.2

/-- A property that every step keeps holds at the end of every run. -/
theorem run_preserves (hstep : ∀ state input, I state → I (step state input)) (hstart : I start)
    (inputs : List Input) : I (run step start inputs) := by
  induction inputs generalizing start with
  | nil => exact hstart
  | cons input rest ih => exact ih (hstep _ _ hstart)

/-- Where a property is kept by exactly the steps that meet `C`, it holds all along
a run exactly when every step meets `C`. -/
theorem forall_run_iff_along {C : State → Input → Prop} {P : State → Prop}
    (hinvariant : ∀ state input, I state → I (step state input))
    (hstep : ∀ state input, I state → P state → (P (step state input) ↔ C state input))
    (hstart : I start) (hfirst : P start) (inputs : List Input) :
    (∀ done, done <+: inputs → P (run step start done)) ↔ Along step C start inputs := by
  induction inputs generalizing start with
  | nil =>
    refine iff_of_true ?_ trivial
    intro done hdone
    rw [List.prefix_nil.mp hdone]
    exact hfirst
  | cons input rest ih =>
    constructor
    · intro hall
      have hnext := hall [input] (List.prefix_append [input] _)
      refine ⟨(hstep _ _ hstart hfirst).mp hnext, ?_⟩
      apply (ih (hinvariant _ _ hstart) hnext).mp
      intro done hdone
      exact hall (input :: done) (List.prefix_cons_inj _ |>.mpr hdone)
    · rintro ⟨hmeets, hrest⟩ done hdone
      have hnext := (hstep _ _ hstart hfirst).mpr hmeets
      cases done with
      | nil => exact hfirst
      | cons head done =>
        obtain ⟨rfl, hlater⟩ := List.cons_prefix_cons.mp hdone
        exact (ih (hinvariant _ _ hstart) hnext).mpr hrest done hlater

theorem along_of_forall {Q : Input → Prop} (h : ∀ input ∈ inputs, Q input) (start : State) :
    Along step (fun _ input => Q input) start inputs := by
  induction inputs generalizing start with
  | nil => trivial
  | cons input rest ih =>
    exact ⟨h _ (by simp), ih (fun other hmem => h _ (List.mem_cons_of_mem _ hmem)) _⟩

theorem forall_of_along {Q : Input → Prop} (himp : ∀ state input, P state input → Q input)
    (h : Along step P start inputs) : ∀ input ∈ inputs, Q input := by
  induction inputs generalizing start with
  | nil => exact List.forall_mem_nil _
  | cons input rest ih => exact List.forall_mem_cons.mpr ⟨himp _ _ h.1, ih h.2⟩

/-- A machine that notes the time of its last input never sees an earlier one
when the inputs are in order of time. -/
theorem along_clock {Time : Type*} [LE Time] {clock : State → Time} {time : Input → Time}
    (hclock : ∀ state input, clock (step state input) = time input)
    (hordered : inputs.Pairwise fun a b => time a ≤ time b)
    (hstart : ∀ input ∈ inputs, clock start ≤ time input) :
    Along step (fun state input => clock state ≤ time input) start inputs := by
  induction inputs generalizing start with
  | nil => trivial
  | cons input rest ih =>
    rw [List.pairwise_cons] at hordered
    refine ⟨hstart _ (by simp), ih hordered.2 ?_⟩
    intro other hmem
    rw [hclock]
    exact hordered.1 other hmem

theorem Along.and {Q : State → Input → Prop} (hp : Along step P start inputs)
    (hq : Along step Q start inputs) :
    Along step (fun state input => P state input ∧ Q state input) start inputs := by
  induction inputs generalizing start with
  | nil => trivial
  | cons input rest ih => exact ⟨⟨hp.1, hq.1⟩, ih hp.2 hq.2⟩

end Run

end Ivnp.Lib
