import Catchment.Stepper
import Catchment.Proofs.Outcomes

/-!
# Fixed steps

Both fixed-step solvers return the states of which the first is given and each next one is a step
from the one before.
-/
namespace Catchment

variable {K : Type} [Scalar K] {s : Shape} {minValue : Option K} {rate : Rate s K}

/-- States at the time points, the first one given and the others by single steps. -/
structure Marches (minValue : Option K) (rate : Rate s K) (u : Grid s K) (times : List K)
    (columns : List (Grid s K)) : Prop where
  length : columns.length = times.length
  head : ∀ v ∈ columns.head?, v = u
  step : ∀ j v w t, columns[j]? = some v → columns[j + 1]? = some w → times[j]? = some t →
    advanceOnce minValue rate v t = .ok w

theorem marchExplicit_eq_ok {u : Grid s K} {times : List K} {columns : List (Grid s K)} :
    marchExplicit minValue rate u times = .ok columns ↔
      Marches minValue rate u times columns := by
  induction times generalizing u columns with
  | nil =>
    constructor
    · intro h
      obtain rfl : [] = columns := Except.ok.inj h
      exact ⟨rfl, by simp, by simp⟩
    · intro h
      rw [List.length_eq_zero_iff.1 h.length]
      rfl
  | cons t times ih => cases times with
    | nil =>
      constructor
      · intro h
        obtain rfl : [u] = columns := Except.ok.inj h
        exact ⟨rfl, by simp, by simp⟩
      · intro h
        obtain ⟨v, rfl⟩ := List.length_eq_one_iff.1 h.length
        obtain rfl : v = u := h.head v rfl
        rfl
    | cons t' times =>
      rw [marchExplicit, bind_eq_ok]
      simp only [bind_eq_ok, ih]
      constructor
      · rintro ⟨v, hv, rest, hrest, h⟩
        obtain rfl : u :: rest = columns := Except.ok.inj h
        refine ⟨by simp [hrest.length], by simp, fun j w w' x hw hw' hx => ?_⟩
        cases j with
        | zero =>
          simp only [List.getElem?_cons_zero, Option.some.injEq] at hw hx
          obtain rfl : w' = v := hrest.head w' (by simpa [List.head?_eq_getElem?] using hw')
          rw [← hw, ← hx, hv]
        | succ j =>
          exact hrest.step j w w' x (by simpa using hw) (by simpa using hw') (by simpa using hx)
      · rintro ⟨hlen, hhead, hstep⟩
        match columns, hlen with
        | v :: w :: rest, hlen =>
          obtain rfl : v = u := hhead v rfl
          refine ⟨w, hstep 0 v w t rfl rfl rfl, w :: rest, ⟨by simpa using hlen, by simp, ?_⟩, rfl⟩
          intro j x x' y hx hx' hy
          exact hstep (j + 1) x x' y hx hx' hy

theorem iterateMap_eq_marchExplicit (u : Grid s K) (t : K) (times : List K) :
    iterateMap (advanceOnce minValue rate) u (t :: times) =
      marchExplicit minValue rate u (t :: times) := by
  have hfold (u : Grid s K) (seen : List (Grid s K)) (t : K) :
      ((t :: times).dropLast.foldlM (fun (state : Grid s K × List (Grid s K)) t => do
          let v ← advanceOnce minValue rate state.1 t
          return (v, v :: state.2)) (u, u :: seen) >>= fun p => .ok p.2.reverse) =
        (marchExplicit minValue rate u (t :: times) >>= fun columns =>
          .ok (seen.reverse ++ columns)) := by
    induction times generalizing u seen t with
    | nil => simp [marchExplicit]
    | cons t' times ih =>
      simp only [List.dropLast_cons_cons, List.foldlM_cons, marchExplicit, bind_assoc, pure_bind]
      congr 1
      funext v
      rw [ih]
      simp
  rw [iterateMap]
  refine (hfold u [] t).trans ?_
  exact bind_pure _

theorem iterateDiscrete_eq_marchExplicit (u : Grid s K) (times : List K) :
    iterateDiscrete minValue rate u times = marchExplicit minValue rate u times := by
  cases times with
  | nil => rfl
  | cons t times =>
    rw [← iterateMap_eq_marchExplicit]
    cases minValue <;> rfl

theorem advance_eq_marchExplicit {settings : Settings K} (hs : settings.solver ≠ .adaptive)
    (u : Grid s K) (times : List K) :
    advance settings rate u times =
      (do return ⟨← marchExplicit settings.minValue rate u times, []⟩) := by
  unfold advance
  split
  · rfl
  · rw [iterateDiscrete_eq_marchExplicit]
  · contradiction

theorem advance_eq_ok {settings : Settings K} (hs : settings.solver ≠ .adaptive) {u : Grid s K}
    {times : List K} {path : Trajectory s K} :
    advance settings rate u times = .ok path ↔
      Marches settings.minValue rate u times path.columns ∧ path.warnings = [] := by
  obtain ⟨columns, warnings⟩ := path
  rw [advance_eq_marchExplicit hs, bind_eq_ok, ← marchExplicit_eq_ok]
  constructor
  · rintro ⟨cols, hcols, h⟩
    obtain ⟨rfl, rfl⟩ := Trajectory.mk.inj (Except.ok.inj h)
    exact ⟨hcols, rfl⟩
  · rintro ⟨hcols, rfl⟩
    exact ⟨columns, hcols, rfl⟩

end Catchment
