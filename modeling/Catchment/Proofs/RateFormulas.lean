import Catchment.Proofs.CellwisePrograms

/-!
# Formulas of rates

The rates of states are evaluated after the fluxes, in the scope that the fluxes leave. They do not
see each other as long as none reads a rate.
-/
namespace Catchment

theorem rateName_injective : Function.Injective rateName := by
  intro s s' h
  have h := congrArg String.toList h
  exact String.toList_inj.1 (by simpa [rateName] using h)

variable {K : Type}

/-- No rate reads the rate of a state. -/
def RatesFree (rates : List (StateFlux K)) : Prop :=
  ∀ r ∈ rates, ∀ r' ∈ rates, rateName r'.state ∉ r.expr.reads

instance (rates : List (StateFlux K)) : Decidable (RatesFree rates) :=
  inferInstanceAs (Decidable (∀ r ∈ rates, ∀ r' ∈ rates, rateName r'.state ∉ r.expr.reads))

def rateFormulas (rates : List (StateFlux K)) : List (String × Expr K) :=
  rates.map fun r => (rateName r.state, r.expr)

theorem flatMap_formulas_state (rates : List (StateFlux K)) :
    (rates.map Declaration.state).flatMap Declaration.formulas = rateFormulas rates := by
  rw [List.flatMap_map]
  exact List.map_eq_flatMap.symm

variable {rates : List (StateFlux K)}

theorem nodup_rateFormulas (hstates : (rates.map fun r => r.state).Nodup) :
    ((rateFormulas rates).map Prod.fst).Nodup := by
  have hnames : (rateFormulas rates).map Prod.fst = (rates.map fun r => r.state).map rateName := by
    simp [rateFormulas]
  rw [hnames]
  exact hstates.map rateName_injective

theorem RatesFree.rateFormulas_notMem (hfree : RatesFree rates) :
    ∀ f ∈ rateFormulas rates, ∀ v ∈ f.2.reads, v ∉ (rateFormulas rates).map Prod.fst := by
  intro f hf v hv hm
  obtain ⟨r, hr, rfl⟩ := List.mem_map.1 hf
  obtain ⟨f, hf, rfl⟩ := List.mem_map.1 hm
  obtain ⟨r', hr', rfl⟩ := List.mem_map.1 hf
  exact hfree r hr r' hr' hv

variable [Scalar K] {params τ : Scope K}

def evalRates (params : Scope K) (rates : List (StateFlux K)) (τ : Scope K) :
    Except Fault (List K) :=
  rates.mapM fun r => do
    let c ← r.expr.evalCell τ params
    return c.value

theorem length_evalRates {xs : List K} (h : evalRates params rates τ = .ok xs) :
    xs.length = rates.length := (mapM_eq_ok.1 h).length_eq.symm

/-- The rates of the states after the formulas of the fluxes. -/
theorem evalOutputs_rates (hstates : (rates.map fun r => r.state).Nodup) (hfree : RatesFree rates)
    (fs : List (String × Expr K)) (σ : Scope K) (xs : List K) :
    evalOutputs params (fs ++ rateFormulas rates) ((rates.map fun r => r.state).map rateName) σ =
        .ok xs ↔
      (do evalRates params rates (← evalFormulas params fs σ)) = Except.ok xs := by
  have hnew := nodup_rateFormulas hstates
  have hreads := hfree.rateFormulas_notMem
  rw [evalOutputs_eq_ok, bind_eq_ok]
  simp only [evalFormulas_append, bind_eq_ok, evalRates, mapM_eq_ok, pure_eq_ok, Except.ok.injEq,
    List.forall₂_map_left_iff]
  simp only [List.forall₂_iff_zip]
  constructor
  · rintro ⟨τ', ⟨τ, hτ, hτ'⟩, hlen, hval⟩
    refine ⟨τ, hτ, hlen, fun {r x} hx => ?_⟩
    obtain ⟨-, hsol⟩ := (evalFormulas_independent hnew hreads).1 hτ'
    obtain ⟨c, hc, hσ⟩ := hsol (rateName r.state, r.expr)
      (List.mem_map.2 ⟨r, (List.of_mem_zip hx).1, rfl⟩)
    have hx := hval hx
    rw [hσ] at hx
    exact ⟨c, hc, Option.some.inj hx⟩
  · rintro ⟨τ, hτ, hlen, hval⟩
    have hall : ∀ f ∈ rateFormulas rates, ∃ c, f.2.evalCell τ params = .ok c := by
      intro f hf
      obtain ⟨r, hr, rfl⟩ := List.mem_map.1 hf
      obtain ⟨k, hk, rfl⟩ := List.mem_iff_getElem.1 hr
      obtain ⟨c, hc, -⟩ := hval (List.mem_iff_getElem.2 ⟨k, by simp; omega, List.getElem_zip⟩)
      exact ⟨c, hc⟩
    obtain ⟨τ', hτ'⟩ := evalFormulas_exists hreads hall
    refine ⟨τ', ⟨τ, hτ, hτ'⟩, hlen, fun {r x} hx => ?_⟩
    obtain ⟨-, hsol⟩ := (evalFormulas_independent hnew hreads).1 hτ'
    obtain ⟨c, hc, hσ⟩ := hsol (rateName r.state, r.expr)
      (List.mem_map.2 ⟨r, (List.of_mem_zip hx).1, rfl⟩)
    obtain ⟨d, hd, rfl⟩ := hval hx
    obtain rfl := Except.ok.inj (hc.symm.trans hd)
    rw [hσ]
    rfl

end Catchment
