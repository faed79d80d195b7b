import Catchment.Proofs.BackendAgreement
import Catchment.Proofs.PickedNodes

/-!
# Elementwise laws

A law is given as a function of whole arrays. It is elementwise if on arguments that are repeated
over a shape it gives values that are repeated over it, at each index by one function of what the
arguments hold there. Declarations with such laws compute column by column, like formulas do.
-/
namespace Catchment

variable {K : Type} [Scalar K]

/-- Any number of outputs of a law are, at every index, one function of its arguments there. -/
def Law.Elementwise (law : Law K) (outputs : Nat) : Prop :=
  ∃ f : List (Cell K) → List (Cell K), ∀ {s : Shape} {args : List (Values K)}
    {cells : List (Index s → Cell K)} {result : LawResult K} {parts : List (Values K)},
    List.Forall₂ Values.Holds args cells → law.apply args = .ok result →
    result.parts outputs = .ok parts →
      ∃ outs : List (Index s → Cell K), List.Forall₂ Values.Holds parts outs ∧
        ∀ i, outs.map (· i) = f (cells.map (· i))

/-- Under some weights, every column of the outputs is one function of that column of the inputs. -/
def NetworkLaw.Columnwise (law : NetworkLaw K) (theta : Tensor K) : Prop :=
  ∃ f : List K → List K, ∀ {l k m : Nat} {x : Grid [l, m] K} {y : Grid [k, m] K},
    law.apply (.ofGrid x) theta = .ok (.ofGrid y) → ∀ i, y.nodeColumn i = f (x.nodeColumn i)

/-- Formulas are elementwise; what is computed by a law is so if the law is. -/
def Declaration.Elementwise (weights : Weights K) : Declaration K → Prop
  | flux f => ∀ law ∈ f.law, law.Elementwise f.outputs.length
  | state _ => True
  | neural n => ∀ given theta, weights.lookup n.network = some given →
      given.toTensor = .ok theta → n.law.Columnwise theta

theorem Declaration.elementwise_of_formulas {f : Declaration K} (h : f.lawName? = none)
    (weights : Weights K) : f.Elementwise weights := by
  cases f with
  | flux f =>
    intro law hlaw
    have hname : (f.law.map Law.name) = none := h
    rw [Option.mem_def.1 hlaw] at hname
    exact nomatch hname
  | state d => trivial
  | neural n => exact nomatch h

variable {s : Shape} {cells args : Index s → Scope K} {params env env' : Bindings K}

def Scope.cell (σ : Scope K) (name : String) : Cell K := (σ name).getD (.double Scalar.nan)

def Scope.setAll (σ : Scope K) (names : List String) (cs : List (Cell K)) : Scope K :=
  (names.zip cs).foldl (fun σ p => σ.set p.1 p.2) σ

omit [Scalar K] in
theorem Bindings.Hold.bindAll (h : env.Hold cells) (names : List String) {vs : List (Values K)}
    {cs : List (Index s → Cell K)} (hvs : List.Forall₂ Values.Holds vs cs) :
    (Declaration.bindAll env names vs).Hold fun i => (cells i).setAll names (cs.map (· i)) := by
  induction hvs generalizing names env cells with
  | nil => simpa [Declaration.bindAll, Scope.setAll] using h
  | cons hv hvs ih => cases names with
    | nil => exact h
    | cons name names => exact ih (h.cons hv name) names

theorem Bindings.Hold.lookup_holds (h : env.Hold cells) {names : List String}
    {vs : List (Values K)} (hvs : Declaration.lookup names env = .ok vs) :
    List.Forall₂ Values.Holds vs (names.map fun v i => (cells i).cell v) := by
  rw [List.forall₂_map_right_iff]
  refine (mapM_eq_ok.1 hvs).flip.imp fun v name hv => ?_
  have hname := h name
  rw [orFault_eq_ok.1 hv] at hname
  obtain ⟨c, hc, hcells⟩ := hname
  have hcell : (fun i => (cells i).cell name) = c := by
    funext i
    rw [Scope.cell, hcells i]
    rfl
  rwa [hcell]

omit [Scalar K] in
theorem Index.rank_node {n : Nat} (i : Fin n) : (Index.node i).rank.val = i.val := by
  show i.val * 1 + 0 = i.val
  omega

namespace Declaration

theorem bindFormulas_elementwise (fs : List (String × Expr K)) :
    ∃ step : Scope K → Scope K → Scope K, ∀ {s : Shape} {params env env' : Bindings K}
      {args cells : Index s → Scope K}, params.Hold args → env.Hold cells →
      bindFormulas params fs env = .ok env' → env'.Hold fun i => step (args i) (cells i) := by
  refine ⟨fun args σ => (evalFormulas args fs σ).toOption.getD σ, ?_⟩
  intro s params env env' args cells hp he h
  have hagree := bindFormulas_agree hp fs he
  rw [h] at hagree
  obtain ⟨d, hd, hok⟩ := hagree
  simp only [hok]
  exact hd

theorem bindLaw_elementwise (f : Flux K) {law : Law K} (hlaw : law.Elementwise f.outputs.length) :
    ∃ step : Scope K → Scope K → Scope K, ∀ {s : Shape} {params env env' : Bindings K}
      {args cells : Index s → Scope K}, params.Hold args → env.Hold cells →
      bindLaw f law params env = .ok env' → env'.Hold fun i => step (args i) (cells i) := by
  obtain ⟨g, hg⟩ := hlaw
  refine ⟨fun args σ => σ.setAll f.outputs
    (g (f.inputs.map σ.cell ++ f.params.map args.cell)), ?_⟩
  intro s params env env' args cells hp he h
  obtain ⟨inputs, hinputs, h⟩ := bind_eq_ok.1 h
  obtain ⟨given, hgiven, h⟩ := bind_eq_ok.1 h
  obtain ⟨result, hresult, h⟩ := bind_eq_ok.1 h
  obtain ⟨parts, hparts, h⟩ := bind_eq_ok.1 h
  split at h
  · simp [mismatched] at h
  · obtain rfl := Except.ok.inj h
    obtain ⟨outs, houts, hvalue⟩ :=
      hg (List.rel_append (he.lookup_holds hinputs) (hp.lookup_holds hgiven)) hresult hparts
    have hbound := he.bindAll f.outputs houts
    simpa only [hvalue, List.map_append, List.map_map, Function.comp_def] using hbound

omit [Scalar K] in
theorem repeatAll_eq {s : Shape} {vs : List (Values K)} {cs : List (Index s → Cell K)}
    (h : List.Forall₂ Values.Holds vs cs) {rows : List (Grid s K)}
    (hrows : (vs.mapM fun v => Values.orFault .value (v.tensor.repeat? s)) = .ok rows) :
    rows = cs.map fun c => Grid.ofFn fun i => (c i).value := by
  refine Except.ok.inj (hrows.symm.trans (mapM_eq_ok.2 ?_))
  rw [List.forall₂_map_right_iff]
  exact h.imp fun v c hv => orFault_eq_ok.2 hv.repeat?

omit [Scalar K] in
theorem get_reshape_node {s : Shape} (g : Grid s K) (h : s.size = Shape.size [s.size])
    (i : Index s) : (g.reshape h).get (.node i.rank) = g.get i := by
  simp only [Grid.get, Grid.reshape, Fin.getElem_fin, Vector.getElem_cast, Index.rank_node]

omit [Scalar K] in
theorem get_reshape_of_node {s : Shape} (row : Grid [s.size] K) (h : Shape.size [s.size] = s.size)
    (i : Index s) : (row.reshape h).get i = row.get (.node i.rank) := by
  simp only [Grid.get, Grid.reshape, Fin.getElem_fin, Vector.getElem_cast, Index.rank_node]

/-- What a network is applied to, and what becomes of its result. -/
theorem bindNetwork_eq_ok {s : Shape} {n : NeuralFlux K} {weights : Weights K}
    {env env' : Bindings K} : bindNetwork s n weights env = .ok env' ↔
      ∃ vs rows given theta, ∃ y : Grid [n.outputs.length, s.size] K, lookup n.inputs env = .ok vs ∧
        (vs.mapM fun v => Values.orFault .value (v.tensor.repeat? s)) = .ok rows ∧ rows ≠ [] ∧
        weights.lookup n.network = some given ∧ given.toTensor = .ok theta ∧
        (∀ count ∈ n.weights, count = theta.size) ∧
        n.law.apply (.ofGrid (Grid.stack
          (rows.map fun g : Grid s K => g.reshape (u := [s.size]) (by simp)))) theta =
            .ok (.ofGrid y) ∧
        env' = bindAll env n.outputs
          (y.rows.map fun row => Values.ofGrid (row.reshape (u := s) (by simp))) := by
  constructor
  · intro h
    obtain ⟨vs, hvs, h⟩ := bind_eq_ok.1 h
    obtain ⟨rows, hrows, h⟩ := bind_eq_ok.1 h
    dsimp only at h
    split at h
    · cases h
    rename_i hne
    obtain ⟨given, hgiven, h⟩ := bind_eq_ok.1 h
    obtain ⟨theta, htheta, h⟩ := bind_eq_ok.1 h
    have hweights : ∀ count ∈ n.weights, count = theta.size := by
      intro count hcount
      rw [Option.mem_def.1 hcount] at h
      by_contra hwrong
      simp [hwrong, mismatched] at h
    split at h
    case' h_1 =>
      split at h
      · cases h
    all_goals
      obtain ⟨y, hy, h⟩ := bind_eq_ok.1 h
      split at h
      · rename_i k m g
        split at h
        · cases h
        rename_i hk
        obtain rfl : k = n.outputs.length := by simpa using hk
        split at h
        · rename_i hm
          subst hm
          exact ⟨vs, rows, given, theta, g, hvs, hrows, by simpa using hne, orFault_eq_ok.1 hgiven,
            htheta, hweights, hy, (Except.ok.inj h).symm⟩
        · cases h
      · cases h
  · rintro ⟨vs, rows, given, theta, y, hvs, hrows, hne, hgiven, htheta, hcount, hy, rfl⟩
    have hempty : rows.isEmpty = false := by simpa using hne
    simp only [bindNetwork, hvs, ok_bind, hrows, hempty, hgiven, orFault_some, htheta, hy]
    rw [if_neg Bool.false_ne_true]
    cases hw : n.weights
    case' some count =>
      have hsame : (count != theta.size) = false := by simpa using hcount count hw
      simp only [hsame]
      rw [if_neg Bool.false_ne_true]
    all_goals exact (if_neg (by simp)).trans (dif_pos rfl)

theorem bindNetwork_elementwise (n : NeuralFlux K) {weights : Weights K}
    (hlaw : Elementwise weights (.neural n)) :
    ∃ step : Scope K → Scope K, ∀ {s : Shape} {env env' : Bindings K} {cells : Index s → Scope K},
      env.Hold cells → bindNetwork s n weights env = .ok env' →
        env'.Hold fun i => step (cells i) := by
  by_cases htheta : ∃ given theta, weights.lookup n.network = some given ∧
      given.toTensor = .ok theta
  · obtain ⟨given, theta, hgiven, htheta⟩ := htheta
    obtain ⟨f, hf⟩ := hlaw given theta hgiven htheta
    refine ⟨fun σ => σ.setAll n.outputs ((f (n.inputs.map fun v => (σ.cell v).value)).map .double),
      ?_⟩
    intro s env env' cells he h
    obtain ⟨vs, rows, given', theta', y, hvs, hrows, -, hgiven', htheta', -, hy, rfl⟩ :=
      bindNetwork_eq_ok.1 h
    obtain rfl := Option.some.inj (hgiven.symm.trans hgiven')
    obtain rfl := Except.ok.inj (htheta.symm.trans htheta')
    obtain rfl := repeatAll_eq (he.lookup_holds hvs) hrows
    have hparts : List.Forall₂ Values.Holds
        (y.rows.map fun row => Values.ofGrid (row.reshape (u := s) (by simp)))
        (y.rows.map fun row i => Cell.double (row.get (.node (Index.rank i)))) := by
      rw [List.forall₂_map_left_iff, List.forall₂_map_right_iff, List.forall₂_same]
      intro row _
      have hholds := Values.holds_ofGrid (row.reshape (u := s) (by simp))
      simpa only [get_reshape_of_node] using hholds
    have hbound := he.bindAll n.outputs hparts
    have hcolumn (i : Index s) := hf hy i.rank
    simp only [Grid.nodeColumn, Grid.rows_stack, List.map_map, Function.comp_def,
      get_reshape_node, Grid.get_ofFn] at hcolumn
    simpa only [← hcolumn, List.map_map, Function.comp_def] using hbound
  · refine ⟨fun σ => σ, fun {s env env' cells} _ h => ?_⟩
    obtain ⟨-, -, given, theta, -, -, -, -, hgiven, hread, -⟩ := bindNetwork_eq_ok.1 h
    exact absurd ⟨given, theta, hgiven, hread⟩ htheta

/-- An elementwise declaration computes, at every index, one function of what the names stand for
there. -/
theorem bind_elementwise {f : Declaration K} {weights : Weights K} (h : f.Elementwise weights) :
    ∃ step : Scope K → Scope K → Scope K, ∀ {s : Shape} {params env env' : Bindings K}
      {args cells : Index s → Scope K}, params.Hold args → env.Hold cells →
      f.bind s params weights env = .ok env' → env'.Hold fun i => step (args i) (cells i) := by
  cases f with
  | flux f =>
    cases hlaw : f.law with
    | none =>
      obtain ⟨step, hstep⟩ := bindFormulas_elementwise (f.outputs.zip f.exprs)
      refine ⟨step, fun hp he hbind => hstep hp he ?_⟩
      simpa only [bind, hlaw] using hbind
    | some law =>
      obtain ⟨step, hstep⟩ := bindLaw_elementwise f (h law hlaw)
      refine ⟨step, fun hp he hbind => hstep hp he ?_⟩
      simpa only [bind, hlaw] using hbind
  | state d => exact bindFormulas_elementwise _
  | neural n =>
    obtain ⟨step, hstep⟩ := bindNetwork_elementwise n h
    exact ⟨fun _ => step, fun _ he hbind => hstep he hbind⟩

theorem foldlM_bind_elementwise {weights : Weights K} {fs : List (Declaration K)}
    (h : ∀ f ∈ fs, f.Elementwise weights) :
    ∃ step : Scope K → Scope K → Scope K, ∀ {s : Shape} {params env env' : Bindings K}
      {args cells : Index s → Scope K}, params.Hold args → env.Hold cells →
      fs.foldlM (fun env f => f.bind s params weights env) env = .ok env' →
        env'.Hold fun i => step (args i) (cells i) := by
  induction fs with
  | nil =>
    refine ⟨fun _ σ => σ, fun _ he hfold => ?_⟩
    obtain rfl := Except.ok.inj hfold
    exact he
  | cons f fs ih =>
    obtain ⟨first, hfirst⟩ := bind_elementwise (h f List.mem_cons_self)
    obtain ⟨rest, hrest⟩ := ih fun g hg => h g (List.mem_cons_of_mem f hg)
    refine ⟨fun args σ => rest args (first args σ), fun hp he hfold => ?_⟩
    obtain ⟨env, henv, hfold⟩ := bind_eq_ok.1 hfold
    exact hrest hp (hfirst hp he henv) hfold

end Declaration

namespace Program

omit [Scalar K] in
theorem byFormulas_of_symbolic {p : Program K} (hb : p.backend = .symbolic) : p.ByFormulas := by
  intro f hf
  have h := p.accepted
  simp only [ProgramDraft.fault?, List.findSome?_eq_none_iff, List.mem_cons, List.not_mem_nil,
    or_false, forall_eq_or_imp, forall_eq, id, ProgramDraft.notSymbolic?, if_pos hb,
    Option.map_eq_none_iff, List.find?_eq_none] at h
  simpa using h.2.2 f hf

/-- A program of elementwise declarations computes column by column, by one function for all shapes
of the rows. -/
theorem run_elementwise {p : Program K} {weights : Weights K}
    (h : ∀ f ∈ p.fluxes, f.Elementwise weights) (hn : p.inputs.Nodup) :
    ∃ f : Scope K → List K → List K, ∀ {s : Shape} {params : Bindings K}
      {cells : Index s → Scope K}, params.Hold cells →
      (∀ k ∈ p.params, ∀ i, ∃ x, cells i k = some (.double x)) →
      ∀ {rows outs : List (Grid s K)}, p.run rows params weights = .ok outs →
        ∀ i, outs.map (·.get i) = f (cells i) (rows.map (·.get i)) := by
  cases hb : p.backend with
  | elementwise =>
    obtain ⟨step, hstep⟩ := Declaration.foldlM_bind_elementwise h
    refine ⟨fun args xs => p.outputs.map fun o => ((step args (scopeOf p.inputs xs)).cell o).value,
      ?_⟩
    intro s params cells hp _ rows outs hrun i
    rw [run, hb] at hrun
    obtain ⟨env, henv, houts⟩ := bind_eq_ok.1 hrun
    have hhold := hstep hp (inputBindings_hold hn rows) henv
    rw [← List.forall₂_eq_eq_eq, List.forall₂_map_left_iff, List.forall₂_map_right_iff]
    refine (mapM_eq_ok.1 houts).flip.imp fun g o hg => ?_
    obtain ⟨v, hv, hg⟩ := bind_eq_ok.1 hg
    have ho := hhold o
    rw [orFault_eq_ok.1 hv] at ho
    obtain ⟨c, hc, hcells⟩ := ho
    rw [orFault_eq_ok, hc.repeat?, Option.some.injEq] at hg
    rw [← hg, Grid.get_ofFn, Scope.cell, show step _ _ o = some (c i) from hcells i]
    rfl
  | symbolic =>
    refine ⟨fun args xs => (p.evalAt args xs).toOption.getD [], ?_⟩
    intro s params cells hp hargs rows outs hrun i
    dsimp only
    rw [evalAt_of_run (byFormulas_of_symbolic hb) hn hp hargs hrun i]
    rfl

end Program

end Catchment
