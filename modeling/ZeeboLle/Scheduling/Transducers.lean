import Mathlib.Data.List.Basic

/-! Machines that read inputs one by one and put out what each of them causes. An input that
changes nothing and puts out nothing can be taken out of a run. -/
namespace ZeeboLle.Scheduling

variable {σ ι ο : Type*} {step : σ → ι → σ × List ο} {state : σ} {input : ι} {inputs first second : List ι}

/-- The state a run ends in, and all it puts out. -/
def transduce (step : σ → ι → σ × List ο) (state : σ) : List ι → σ × List ο
  | [] => (state, [])
  | input :: rest =>
    ((transduce step (step state input).1 rest).1,
      (step state input).2 ++ (transduce step (step state input).1 rest).2)

@[simp] theorem transduce_nil : transduce step state [] = (state, []) := rfl

theorem transduce_cons (step : σ → ι → σ × List ο) (state : σ) (input : ι) (rest : List ι) :
    transduce step state (input :: rest) =
      ((transduce step (step state input).1 rest).1,
        (step state input).2 ++ (transduce step (step state input).1 rest).2) := rfl

/-- An input that changes nothing and puts out nothing. -/
def Silent (step : σ → ι → σ × List ο) (state : σ) (input : ι) : Prop := step state input = (state, [])

theorem transduce_silent (silent : Silent step state input) (rest : List ι) :
    transduce step state (input :: rest) = transduce step state rest := by
  rw [transduce_cons, silent]
  rfl

/-- A property of every input of a run and the state it is read in. -/
def AtEach (step : σ → ι → σ × List ο) (property : σ → ι → Prop) (state : σ) : List ι → Prop
  | [] => True
  | input :: rest => property state input ∧ AtEach step property (step state input).1 rest

theorem AtEach.imp {property other : σ → ι → Prop} (holds : AtEach step property state inputs)
    (implies : ∀ state input, property state input → other state input) :
    AtEach step other state inputs := by
  induction inputs generalizing state with
  | nil => trivial
  | cons input rest ih => exact ⟨implies _ _ holds.1, ih holds.2⟩

theorem atEach_congr {property other : σ → ι → Prop}
    (same : ∀ state input, property state input ↔ other state input) :
    AtEach step property state inputs ↔ AtEach step other state inputs :=
  ⟨fun holds => holds.imp fun state input => (same state input).mp,
    fun holds => holds.imp fun state input => (same state input).mpr⟩

/-- A run without the inputs that are marked in the state the whole run reads them in. -/
def erase (step : σ → ι → σ × List ο) (marked : σ → ι → Bool) (state : σ) : List ι → List ι
  | [] => []
  | input :: rest =>
    if marked state input then erase step marked (step state input).1 rest
    else input :: erase step marked (step state input).1 rest

/-- Silent inputs can be taken out. -/
theorem transduce_erase {marked : σ → ι → Bool}
    (silent : AtEach step (fun state input => marked state input = true → Silent step state input) state
      inputs) : transduce step state (erase step marked state inputs) = transduce step state inputs := by
  induction inputs generalizing state with
  | nil => rfl
  | cons input rest ih =>
    obtain ⟨here, later⟩ := silent
    rw [erase]
    split
    · rename_i hit
      have still := here hit
      have after := ih later
      rw [transduce_silent still]
      rw [still] at after ⊢
      exact after
    · rw [transduce_cons, transduce_cons, ih later]

end ZeeboLle.Scheduling
