import Catchment.Stepper
import Catchment.Proofs.FixedSteps

/-!
# Extended rates

One computation extends another if it returns whatever the other returns. A solver that is given an
extension of a rate returns what it returns with the rate itself.
-/
namespace Catchment

def ExtendedBy {α : Type} (x y : Except Fault α) : Prop := ∀ a, x = .ok a → y = .ok a

namespace ExtendedBy

variable {α β : Type} {x y x' y' : Except Fault α}

theorem refl (x : Except Fault α) : ExtendedBy x x := fun _ h => h

theorem refused (e : Fault) (f : β → Except Fault α) : ExtendedBy (throw e >>= f) y := nofun

theorem bind {f g : α → Except Fault β} (h : ExtendedBy x y) (hfg : ∀ a, ExtendedBy (f a) (g a)) :
    ExtendedBy (x >>= f) (y >>= g) := by
  intro b hb
  obtain ⟨a, ha, hb⟩ := bind_eq_ok.1 hb
  exact bind_eq_ok.2 ⟨a, h a ha, hfg a b hb⟩

theorem ite {c : Prop} [Decidable c] (h : ExtendedBy x y) (h' : ExtendedBy x' y') :
    ExtendedBy (if c then x else x') (if c then y else y') := by
  split
  · exact h
  · exact h'

theorem foldlM {f g : β → α → Except Fault β} (h : ∀ b a, ExtendedBy (f b a) (g b a))
    (xs : List α) (b : β) : ExtendedBy (xs.foldlM f b) (xs.foldlM g b) := by
  induction xs generalizing b with
  | nil => exact refl _
  | cons a xs ih =>
    rw [List.foldlM_cons, List.foldlM_cons]
    exact (h b a).bind ih

end ExtendedBy

variable {K : Type} [Scalar K] {s : Shape} {rate rate' : Rate s K}

omit [Scalar K] in
theorem checkedRate_extendedBy (h : ∀ u time, ExtendedBy (rate u time) (rate' u time))
    (u : Grid s K) (time : K) :
    ExtendedBy (checkedRate rate u time) (checkedRate rate' u time) :=
  (h u time).bind fun _ => .refl _

omit [Scalar K] in
/-- What an inquiry returns depends on the rates alone that it is given. -/
theorem Inquiry.answer_extendedBy {m : Nat} {α : Type}
    {rate rate' : K → Grid [m] K → Except Fault (Grid [m] K)}
    (h : ∀ time u, ExtendedBy (rate time u) (rate' time u)) (x : Inquiry m K α) :
    ExtendedBy (x.answer rate) (x.answer rate') := by
  induction x with
  | done a => exact .refl _
  | refused => exact .refl _
  | ask time state next ih => exact (h time state).bind ih

section

variable (h : ∀ u time, ExtendedBy (rate u time) (rate' u time))

include h

theorem integrate_extendedBy (settings : Settings K) (x0 : Grid s K) (times : List K) :
    ExtendedBy (integrate settings rate x0 times) (integrate settings rate' x0 times) := by
  have hflat (time : K) (y : Grid [s.size] K) :
      ExtendedBy (flatRate rate time y) (flatRate rate' time y) :=
    (checkedRate_extendedBy h _ _).bind fun _ => .refl _
  cases times with
  | nil => exact .refl _
  | cons first rest => cases rest with
    | nil => exact .refl _
    | cons second rest => exact (Inquiry.answer_extendedBy hflat _).bind fun _ => .refl _

theorem advanceOnce_extendedBy (minValue : Option K) (u : Grid s K) (time : K) :
    ExtendedBy (advanceOnce minValue rate u time) (advanceOnce minValue rate' u time) :=
  (checkedRate_extendedBy h u time).bind fun _ => .refl _

theorem marchExplicit_extendedBy (minValue : Option K) (u : Grid s K) (times : List K) :
    ExtendedBy (marchExplicit minValue rate u times) (marchExplicit minValue rate' u times) := by
  induction times generalizing u with
  | nil => exact .refl _
  | cons time times ih => cases times with
    | nil => exact .refl _
    | cons next rest =>
      exact (advanceOnce_extendedBy h minValue u time).bind fun v => (ih v).bind fun _ => .refl _

/-- Every solver returns with an extended rate what it returns with the rate itself. -/
theorem advance_extendedBy (settings : Settings K) (x0 : Grid s K) (times : List K) :
    ExtendedBy (advance settings rate x0 times) (advance settings rate' x0 times) := by
  by_cases hs : settings.solver = .adaptive
  · simp only [advance, hs]
    exact integrate_extendedBy h settings x0 times
  · rw [advance_eq_marchExplicit hs, advance_eq_marchExplicit hs]
    exact (marchExplicit_extendedBy h _ x0 times).bind fun _ => .refl _

end

end Catchment
