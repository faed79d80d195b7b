import Catchment.Proofs.NamedRows

/-!
# Programs cell by cell

A program of formulas that is run over whole rows computes, at every index, what its formulas give
there when they are evaluated one after the other.
-/
namespace Catchment

variable {K : Type} {s : Shape}

/-- Over a shape with an index, rows are known by what they give at every index. -/
theorem Grid.list_ext_get {gs hs : List (Grid s K)} (i₀ : Index s)
    (h : ∀ i, gs.map (·.get i) = hs.map (·.get i)) : gs = hs := by
  have hlen : gs.length = hs.length := by
    simpa using congrArg List.length (h i₀)
  refine List.ext_getElem hlen fun k hk hk' => Grid.ext_get fun i => ?_
  have hi := congrArg (·[k]?) (h i)
  simpa [hk, hk'] using hi

theorem Bindings.Hold.cons {env : Bindings K} {cells : Index s → Scope K} (h : env.Hold cells)
    {v : Values K} {c : Index s → Cell K} (hv : v.Holds c) (name : String) :
    Bindings.Hold ((name, v) :: env) fun i => (cells i).set name (c i) := by
  intro w
  by_cases hw : w = name
  · subst hw
    rw [List.lookup_cons_self]
    exact ⟨c, hv, fun i => Scope.set_self ..⟩
  · have hlookup : List.lookup w ((name, v) :: env) = env.lookup w := by
      rw [List.lookup_cons, beq_eq_false_iff_ne.2 hw]
    simp only [hlookup, Scope.set_of_ne hw]
    exact h w

variable [Scalar K]

/-- Formulas over values are the formulas over the cells of every index. -/
theorem Declaration.bindFormulas_agree {params env : Bindings K} {args cells : Index s → Scope K}
    (hp : params.Hold args) (fs : List (String × Expr K)) (he : env.Hold cells) :
    Agree Bindings.Hold (bindFormulas params fs env) fun i =>
      evalFormulas (args i) fs (cells i) := by
  induction fs generalizing env cells with
  | nil => exact ⟨cells, he, fun _ => rfl⟩
  | cons f fs ih =>
    exact agree_bind (l := fun i c => evalFormulas (args i) fs ((cells i).set f.1 c))
      (Expr.eval_agree he hp f.2) fun v c hv => ih (he.cons hv f.1)

theorem Declaration.bindFormulas_append (params : Bindings K) (fs gs : List (String × Expr K))
    (env : Bindings K) :
    bindFormulas params (fs ++ gs) env = bindFormulas params fs env >>= bindFormulas params gs := by
  induction fs generalizing env with
  | nil => rfl
  | cons f fs ih =>
    simp only [List.cons_append, bindFormulas]
    cases f.2.eval env params with
    | error e => rfl
    | ok v => exact ih _

theorem Declaration.bind_eq_bindFormulas {f : Declaration K} (h : f.lawName? = none)
    (params : Bindings K) (weights : Weights K) (env : Bindings K) :
    f.bind s params weights env = bindFormulas params f.formulas env := by
  cases f with
  | flux f =>
    have hlaw : f.law = none := by simpa [lawName?] using h
    simp only [bind, hlaw, formulas]
  | state d => rfl
  | neural n => simp [lawName?] at h

def evalOutputs (params : Scope K) (fs : List (String × Expr K)) (outputs : List String)
    (σ : Scope K) : Except Fault (List K) := do
  let τ ← evalFormulas params fs σ
  outputs.mapM fun o => do
    let c ← (τ o).elim (.error .unknownName) .ok
    return c.value

theorem evalOutputs_eq_ok {params σ : Scope K} {fs : List (String × Expr K)}
    {outputs : List String} {xs : List K} :
    evalOutputs params fs outputs σ = .ok xs ↔
      ∃ τ, evalFormulas params fs σ = .ok τ ∧
        List.Forall₂ (fun o x => (τ o).map Cell.value = some x) outputs xs := by
  have hread (τ : Scope K) (o : String) (x : K) :
      (do let c ← (τ o).elim (.error .unknownName) .ok; return c.value : Except Fault K) = .ok x ↔
        (τ o).map Cell.value = some x := by
    cases τ o <;> simp
  rw [evalOutputs, bind_eq_ok]
  simp only [mapM_eq_ok, hread]

namespace Program

def formulas (p : Program K) : List (String × Expr K) := p.fluxes.flatMap Declaration.formulas

def ByFormulas (p : Program K) : Prop := ∀ f ∈ p.fluxes, f.lawName? = none

theorem foldlM_bind_eq {fluxes : List (Declaration K)} (h : ∀ f ∈ fluxes, f.lawName? = none)
    (params : Bindings K) (weights : Weights K) (env : Bindings K) :
    fluxes.foldlM (fun env f => f.bind s params weights env) env =
      Declaration.bindFormulas params (fluxes.flatMap Declaration.formulas) env := by
  induction fluxes generalizing env with
  | nil => rfl
  | cons f fluxes ih =>
    rw [List.foldlM_cons, List.flatMap_cons, Declaration.bindFormulas_append,
      Declaration.bind_eq_bindFormulas (h f List.mem_cons_self)]
    congr 1
    funext env
    exact ih (fun g hg => h g (List.mem_cons_of_mem f hg)) env

variable {p : Program K} {rows : List (Grid s K)} {params : Bindings K} {args : Index s → Scope K}

theorem runElementwise_agree (hp : p.ByFormulas) (hn : p.inputs.Nodup) (ha : params.Hold args)
    (rows : List (Grid s K)) (weights : Weights K) :
    Agree (fun outs d => ∀ i, d i = outs.map (·.get i)) (p.runElementwise rows params weights)
      fun i =>
        evalOutputs (args i) p.formulas p.outputs (scopeOf p.inputs (rows.map (·.get i))) := by
  rw [runElementwise, foldlM_bind_eq hp]
  refine agree_bind (l := fun i τ => p.outputs.mapM fun o => do
      let c ← (τ o).elim (.error .unknownName) .ok
      return c.value)
    (Declaration.bindFormulas_agree ha p.formulas (inputBindings_hold hn rows)) fun env τ he => ?_
  have hread (o : String) (_ : o ∈ p.outputs) :
      Agree (fun (g : Grid s K) c => ∀ i, c i = g.get i)
        (do
          let v ← Values.orFault .unknownName (env.lookup o)
          Values.orFault .value (v.tensor.repeat? s))
        fun i => do
          let c ← (τ i o).elim (.error .unknownName) .ok
          return c.value := by
    refine agree_bind (l := fun _ c => .ok c.value) (he.lookup_agree o) fun v c hv => ?_
    rw [hv.repeat?]
    exact ⟨fun i => (c i).value, fun i => by simp, fun _ => rfl⟩
  refine (agree_mapM hread).imp fun outs d hd i => ?_
  obtain ⟨cs, hcs, hd⟩ := hd
  rw [hd, ← List.forall₂_eq_eq_eq, List.forall₂_map_left_iff, List.forall₂_map_right_iff]
  exact hcs.flip.imp fun c g h => h i

theorem runElementwise_ok (hp : p.ByFormulas) (hn : p.inputs.Nodup) (ha : params.Hold args)
    {weights : Weights K} {outs : List (Grid s K)}
    (h : p.runElementwise rows params weights = .ok outs) (i : Index s) :
    evalOutputs (args i) p.formulas p.outputs (scopeOf p.inputs (rows.map (·.get i))) =
      .ok (outs.map (·.get i)) := by
  have ha := runElementwise_agree hp hn ha rows weights
  rw [h] at ha
  obtain ⟨d, hd, hok⟩ := ha
  exact (hok i).trans (congrArg Except.ok (hd i))

/-- Over a shape with an index, a program returns what its formulas give at every index. -/
theorem runElementwise_eq_ok (hp : p.ByFormulas) (hn : p.inputs.Nodup) (ha : params.Hold args)
    {weights : Weights K} {outs : List (Grid s K)} (i₀ : Index s) :
    p.runElementwise rows params weights = .ok outs ↔
      ∀ i, evalOutputs (args i) p.formulas p.outputs (scopeOf p.inputs (rows.map (·.get i))) =
        .ok (outs.map (·.get i)) := by
  refine ⟨runElementwise_ok hp hn ha, fun h => ?_⟩
  obtain ⟨outs', hrun, hget⟩ := (runElementwise_agree hp hn ha rows weights).eq_ok ⟨i₀⟩ h
  rw [hrun, Except.ok.injEq]
  exact Grid.list_ext_get i₀ fun i => (hget i).symm

end Program

end Catchment
