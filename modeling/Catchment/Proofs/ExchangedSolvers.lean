import Catchment.Proofs.AlikeSettings

/-!
# Exchanged solvers

The two fixed-step solvers stand for each other. Under every rate they return the same states or end
in the same fault, the fault of the rate at one and the same step, and so does every component.
-/
namespace Catchment

variable {K : Type} [Scalar K] {u : Shape} {minValue : Option K} {rate : Rate u K}

inductive StopsAt (minValue : Option K) (rate : Rate u K) :
    Grid u K → List K → Nat → Fault → Prop
  | first {x : Grid u K} {time next : K} {rest : List K} {f : Fault}
      (fault : checkedRate rate x time = .error f) :
      StopsAt minValue rate x (time :: next :: rest) 0 f
  | later {x y : Grid u K} {time next : K} {rest : List K} {j : Nat} {f : Fault}
      (step : advanceOnce minValue rate x time = .ok y)
      (stops : StopsAt minValue rate y (next :: rest) j f) :
      StopsAt minValue rate x (time :: next :: rest) (j + 1) f

theorem advanceOnce_eq_error {x : Grid u K} {time : K} {f : Fault} :
    advanceOnce minValue rate x time = .error f ↔ checkedRate rate x time = .error f := by
  rw [advanceOnce]
  cases checkedRate rate x time with
  | error e => rfl
  | ok r => simp

/-- A march ends in a fault exactly if one of its steps does. -/
theorem marchExplicit_eq_error {x : Grid u K} {times : List K} {f : Fault} :
    marchExplicit minValue rate x times = .error f ↔ ∃ j, StopsAt minValue rate x times j f := by
  induction times generalizing x with
  | nil =>
    refine iff_of_false (by simp [marchExplicit]) ?_
    rintro ⟨_, ⟨⟩⟩
  | cons time times ih => cases times with
    | nil =>
      refine iff_of_false (by simp [marchExplicit]) ?_
      rintro ⟨_, ⟨⟩⟩
    | cons next rest =>
      have hrest {y : Grid u K} :
          (do return x :: (← marchExplicit minValue rate y (next :: rest))) = Except.error f ↔
            marchExplicit minValue rate y (next :: rest) = .error f := by
        simp [bind_eq_error]
      rw [marchExplicit, bind_eq_error, advanceOnce_eq_error]
      constructor
      · rintro (fault | ⟨y, step, h⟩)
        · exact ⟨0, .first fault⟩
        · obtain ⟨j, stops⟩ := ih.1 (hrest.1 h)
          exact ⟨j + 1, .later step stops⟩
      · rintro ⟨j, fault | ⟨step, stops⟩⟩
        · exact .inl fault
        · exact .inr ⟨_, step, hrest.2 (ih.2 ⟨_, stops⟩)⟩

theorem StopsAt.unique {x : Grid u K} {times : List K} {j j' : Nat} {f f' : Fault}
    (h : StopsAt minValue rate x times j f) (h' : StopsAt minValue rate x times j' f') :
    j = j' ∧ f = f' := by
  induction h generalizing j' with
  | first fault =>
    cases h' with
    | first fault' => exact ⟨rfl, Except.error.inj (fault.symm.trans fault')⟩
    | later step' => cases step'.symm.trans (advanceOnce_eq_error.2 fault)
  | later step stops ih =>
    cases h' with
    | first fault' => cases step.symm.trans (advanceOnce_eq_error.2 fault')
    | later step' stops' =>
      obtain rfl := Except.ok.inj (step.symm.trans step')
      obtain ⟨rfl, rfl⟩ := ih stops'
      exact ⟨rfl, rfl⟩

/-- The other one of the fixed-step solvers. -/
def Solver.exchanged : Solver → Solver
  | explicit => discrete
  | discrete => explicit
  | adaptive => adaptive

theorem Solver.exchanged_eq_adaptive {solver : Solver} :
    solver.exchanged = .adaptive ↔ solver = .adaptive := by
  cases solver <;> decide

namespace Settings

def exchanged (s : Settings K) : Settings K := { s with solver := s.solver.exchanged }

theorem advance_exchanged (s : Settings K) (rate : Rate u K) (x : Grid u K) (times : List K) :
    advance s.exchanged rate x times = advance s rate x times := by
  by_cases hs : s.solver = .adaptive
  · have hsame : s.exchanged = s := by rw [exchanged, hs, Solver.exchanged, ← hs]
    rw [hsame]
  · rw [advance_eq_marchExplicit hs,
      advance_eq_marchExplicit (fun h => hs (Solver.exchanged_eq_adaptive.1 h))]
    rfl

theorem alike_exchanged (t : Nat) (s : Settings K) : s.Alike t s.exchanged where
  paramIndex := rfl
  stateIndex := rfl
  backend := rfl
  adaptive := Solver.exchanged_eq_adaptive
  refused _ := Iff.rfl
  paths times times' htimes htimes' := by
    obtain rfl := Except.ok.inj (htimes.symm.trans htimes')
    intro r v columns rate x _
    exact bind_congr fun forcing => s.advance_exchanged _ x times.val

end Settings

/-- The fixed-step solvers are interchangeable. Under every rate, from every state of any shape and
over all times they return the same trajectory or the same fault, and there is one step whose rate
has this fault. So every component returns the same or ends in the same fault under both, and where
the parts of a model have solvers of their own, under both of these. -/
theorem fixed_solvers_interchange :
    (∀ (u : Shape) (s : Settings K) (rate : Rate u K) (x : Grid u K) (times : List K),
      advance { s with solver := .discrete } rate x times =
        advance { s with solver := .explicit } rate x times ∧
      ∀ f, (advance { s with solver := .discrete } rate x times = .error f ↔
          ∃! j, StopsAt s.minValue rate x times j f) ∧
        (advance { s with solver := .explicit } rate x times = .error f ↔
          ∃! j, StopsAt s.minValue rate x times j f)) ∧
    ∀ (c : Component K) (input : Nested K) (args : RunArguments K) (s : Settings K),
      c.run input args { s with solver := .discrete } =
        c.run input args { s with solver := .explicit } ∧
      (c.mapSettings Settings.exchanged).run input args { s with solver := .discrete } =
        c.run input args { s with solver := .explicit } := by
  refine ⟨fun u s rate x times => ?_, fun c input args s => ?_⟩
  · have hsame := Settings.advance_exchanged { s with solver := .explicit } rate x times
    have hfault (f : Fault) : advance { s with solver := .explicit } rate x times = .error f ↔
        ∃! j, StopsAt s.minValue rate x times j f := by
      have hmarch : advance { s with solver := .explicit } rate x times = .error f ↔
          marchExplicit s.minValue rate x times = .error f := by
        simp [advance, bind_eq_error]
      rw [hmarch, marchExplicit_eq_error]
      constructor
      · rintro ⟨j, hj⟩
        exact ⟨j, hj, fun j' hj' => (hj'.unique hj).1⟩
      · exact ExistsUnique.exists
    refine ⟨hsame, fun f => ⟨?_, hfault f⟩⟩
    rw [← hfault f]
    exact ⟨hsame.symm.trans, hsame.trans⟩
  · have halike (t : Nat) : ({ s with solver := .explicit } : Settings K).Alike t
        { s with solver := .discrete } :=
      Settings.alike_exchanged t { s with solver := .explicit }
    exact ⟨Component.run_alike (fun given _ => halike given.times) c args,
      Component.run_mapSettings (fun given _ => ⟨halike given.times, Settings.alike_exchanged _⟩)
        c args⟩

end Catchment
