import Catchment.Proofs.BackendAgreement
import Catchment.Proofs.IndifferentFormulas
import Catchment.Proofs.NodeSteps

/-!
# Programs in two stages

A list of declarations can be compiled at once, or as two programs of which the second one is given
the rows of the first one below the inputs. Within one program a value keeps its format, between two
programs it is a row of doubles. Where no formula of the second stage tells the difference, and
every parameter can be repeated over the columns, both ways lead to the same rows, or to the same
fault.
-/
namespace Catchment

variable {K : Type} {s : Shape}

/-- The rows of an array, with those of another one below. -/
def Tensor.above {α : Type} (x y : Tensor α) : Except Fault (Tensor α) :=
  match x, y with
  | ⟨_ :: s, g⟩, ⟨_ :: u, h⟩ =>
    if e : u = s then .ok (.ofGrid (Grid.stack (g.rows ++ (e ▸ h.rows : List (Grid s α)))))
    else .error .value
  | _, _ => .error .value

theorem Tensor.above_stack {α : Type} {n : Nat} (g : Grid (n :: s) α) (hs : List (Grid s α)) :
    above ⟨n :: s, g⟩ (.ofGrid (Grid.stack hs)) = .ok (.ofGrid (Grid.stack (g.rows ++ hs))) := by
  simp only [above, ofGrid, dif_pos]
  exact congrArg (fun rows => Except.ok (ofGrid (Grid.stack (g.rows ++ rows)))) (Grid.rows_stack hs)

/-- The row under a name. -/
def Bindings.row (s : Shape) (env : Bindings K) (name : String) : Except Fault (Grid s K) := do
  let v ← Values.orFault .unknownName (env.lookup name)
  Values.orFault .value (v.tensor.repeat? s)

namespace Bindings.Twins

variable {F G : String → Format} {env env' : Bindings K}

theorem row_eq (h : Bindings.Twins s F G env env') (v : String) : env'.row s v = env.row s v := by
  rw [row, row]
  rcases h v with ⟨hnone, hnone'⟩ | ⟨a, b, ha, hb, -, -, x, hax, hbx⟩
  · rw [hnone, hnone']
  · rw [ha, hb]
    simp only [orFault_some, ok_bind, hax.repeat?, hbx.repeat?]

theorem row_exists (h : Bindings.Twins s F G env env') {v : String} (hv : env.lookup v ≠ none) :
    ∃ g, env'.row s v = .ok g ∧ ∃ a, env.lookup v = some a ∧ a.format = F v ∧ a.Carries g.get := by
  rcases h v with ⟨hnone, -⟩ | ⟨a, b, ha, hb, hF, -, x, hax, hbx⟩
  · exact absurd hnone hv
  · refine ⟨Grid.ofFn x, ?_, a, ha, hF, ?_⟩
    · rw [row, hb, orFault_some, ok_bind, hbx.repeat?]
      rfl
    · rwa [funext (Grid.get_ofFn x)]

end Bindings.Twins

namespace Program

variable {rows : List (Grid s K)} {names outputs : List String}

theorem lookup_inputBindings_append (hlen : names.length = rows.length) (outputs : List String)
    (y : String → Grid s K) (v : String) :
    (inputBindings (names ++ outputs) (rows ++ outputs.map y)).lookup v =
      if v ∈ outputs then some (.ofGrid (y v)) else (inputBindings names rows).lookup v := by
  have hzip : outputs.zip ((outputs.map y).map Values.ofGrid) =
      outputs.map fun w => (w, Values.ofGrid (y w)) := by
    rw [List.map_map]
    exact List.map_prod_left_eq_zip.symm
  rw [inputBindings, inputBindings, Declaration.bindAll_eq, Declaration.bindAll_eq, List.map_append,
    List.zip_append (by simp [hlen]), List.reverse_append, List.append_assoc, List.lookup_append,
    hzip, ← List.map_reverse]
  split
  · rename_i hv
    rw [lookup_map_self (fun w => Values.ofGrid (y w)) (List.mem_reverse.2 hv)]
    rfl
  · rename_i hv
    have hnone : (outputs.reverse.map fun w => (w, Values.ofGrid (y w))).lookup v = none := by
      rw [List.lookup_eq_none_iff]
      rintro q hq
      obtain ⟨w, hw, rfl⟩ := List.mem_map.1 hq
      simpa using fun h : v = w => hv (h ▸ List.mem_reverse.1 hw)
    rw [hnone, Option.none_or]

theorem inputBindings_twins (names : List String) (rows : List (Grid s K)) :
    Bindings.Twins s (fun _ => .double) (fun _ => .double) (inputBindings names rows)
      (inputBindings names rows) := by
  intro v
  cases hv : (inputBindings names rows).lookup v with
  | none => exact .inl ⟨rfl, rfl⟩
  | some a =>
    obtain ⟨g, rfl⟩ : ∃ g : Grid s K, .ofGrid g = a := by
      rw [inputBindings, Declaration.bindAll_eq, List.append_nil, List.zip_map_right] at hv
      have hmem := List.mem_reverse.1 (mem_of_lookup_eq_some hv)
      obtain ⟨q, -, hq⟩ := List.mem_map.1 hmem
      exact ⟨q.2, (Prod.ext_iff.1 hq).2⟩
    exact .inr ⟨_, _, rfl, rfl, rfl, rfl, g.get, Values.carries_ofGrid g, Values.carries_ofGrid g⟩

/-- Two programs that have the declarations of a program between them; the second one reads the
inputs and all outputs of the first one. -/
structure Stages (p p₁ p₂ : Program K) : Prop where
  backends : p.backend = .elementwise ∧ p₁.backend = .elementwise ∧ p₂.backend = .elementwise
  laws : p.ByFormulas
  fluxes : p.fluxes = p₁.fluxes ++ p₂.fluxes
  inputs₁ : p₁.inputs = p.inputs
  inputs₂ : p₂.inputs = p.inputs ++ p₁.outputs
  outputs : p₂.outputs = p.outputs
  produced : ∀ v, v ∈ p₁.outputs ↔ v ∈ p₁.fluxes.flatMap Declaration.outputs

namespace Stages

variable {p p₁ p₂ : Program K}

theorem laws₁ (h : Stages p p₁ p₂) : p₁.ByFormulas :=
  fun f hf => h.laws f (h.fluxes ▸ List.mem_append_left _ hf)

theorem laws₂ (h : Stages p p₁ p₂) : p₂.ByFormulas :=
  fun f hf => h.laws f (h.fluxes ▸ List.mem_append_right _ hf)

theorem formulas (h : Stages p p₁ p₂) : p.formulas = p₁.formulas ++ p₂.formulas := by
  rw [Program.formulas, h.fluxes, List.flatMap_append]
  rfl

theorem mem_params (h : Stages p p₁ p₂) {k : String} :
    k ∈ p.params ↔ k ∈ p₁.params ∨ k ∈ p₂.params := by
  simp only [params, h.fluxes, List.map_append, mem_orderedUnion, List.mem_append, or_and_right,
    exists_or]

theorem mem_outputs (h : Stages p p₁ p₂) {v : String} :
    v ∈ p₁.outputs ↔ v ∈ p₁.formulas.map Prod.fst := by
  rw [h.produced, Program.formulas, List.map_flatMap,
    List.flatMap_congr fun f hf => Declaration.map_fst_formulas (h.laws₁ f hf)]

end Stages

variable [Scalar K] {args : Arguments K} {params params' params₁ params₂ : Bindings K}
  {p p₁ p₂ : Program K} {x : Nested K} {weights : Weights K}

theorem lookup_convert (h : convert args names = .ok params) {k : String} (hk : k ∈ names) :
    ∃ a t, args.lookup k = some a ∧ a.toTensor = .ok t ∧ params.lookup k = some (.ofTensor t) := by
  have hentries := (mapM_eq_ok.1 h).imp (S := fun k (q : String × Values K) =>
      (∃ a t, args.lookup k = some a ∧ a.toTensor = .ok t ∧ q.2 = .ofTensor t) ∧ q.1 = k)
    fun k q hq => by
      obtain ⟨a, ha, hq⟩ := bind_eq_ok.1 hq
      obtain ⟨t, ht, hq⟩ := bind_eq_ok.1 hq
      obtain rfl := Except.ok.inj hq
      exact ⟨⟨a, t, orFault_eq_ok.1 ha, ht, rfl⟩, rfl⟩
  obtain ⟨w, hw, a, t, ha, ht, rfl⟩ := lookup_of_forall₂
    (R := fun k w => ∃ a t, args.lookup k = some a ∧ a.toTensor = .ok t ∧ w = Values.ofTensor t)
    hentries hk
  exact ⟨a, t, ha, ht, hw⟩

theorem Arguments.Cover.share {ks ks' : List String} (hcover : args.Cover s ks)
    (h : convert args ks = .ok params) (h' : convert args ks' = .ok params') (hsub : names ⊆ ks)
    (hsub' : names ⊆ ks') : params.Share s params' names := by
  intro k hk
  obtain ⟨a, t, ha, ht, hlookup⟩ := lookup_convert h (hsub hk)
  obtain ⟨a', t', ha', ht', hlookup'⟩ := lookup_convert h' (hsub' hk)
  obtain ⟨a'', t'', ha'', ht'', hrepeat⟩ := hcover k (hsub hk)
  obtain rfl := Option.some.inj (ha.symm.trans ha')
  obtain rfl := Option.some.inj (ha.symm.trans ha'')
  obtain rfl := Except.ok.inj (ht.symm.trans ht')
  obtain rfl := Except.ok.inj (ht.symm.trans ht'')
  obtain ⟨g, hg⟩ := Option.isSome_iff_exists.1 hrepeat
  exact ⟨t, g, hlookup, hlookup', hg⟩

theorem Arguments.Cover.mono (h : args.Cover s names) (hsub : outputs ⊆ names) :
    args.Cover s outputs :=
  fun k hk => h k (hsub hk)

/-- The array has at least one column, and those of the parameters that are given are arrays that
can be repeated over its columns. -/
def Arguments.Fit (args : Arguments K) (x : Nested K) (names : List String) : Prop :=
  ∀ (n : Nat) (s : Shape) (g : Grid (n :: s) K), x.toTensor = .ok ⟨n :: s, g⟩ →
    0 < Shape.size s ∧ ∀ k ∈ names, ∀ a, args.lookup k = some a →
      ∃ t, a.toTensor = .ok t ∧ (t.repeat? s).isSome

theorem Arguments.Fit.cover {n : Nat} {g : Grid (n :: s) K} (h : args.Fit x names)
    (hx : x.toTensor = .ok ⟨n :: s, g⟩) (hgiven : ∀ k ∈ names, (args.lookup k).isSome) :
    args.Cover s names := by
  intro k hk
  obtain ⟨a, ha⟩ := Option.isSome_iff_exists.1 (hgiven k hk)
  obtain ⟨t, ht, hrepeat⟩ := (h n s g hx).2 k hk a ha
  exact ⟨a, t, ha, ht, hrepeat⟩

/-- A program that returns rows was given all its parameters. -/
theorem given_of_call {y : Tensor K} (h : p.call x args weights = .ok y) :
    ∀ k ∈ p.params, (args.lookup k).isSome := by
  obtain ⟨⟨shape, g⟩, -, h⟩ := bind_eq_ok.1 h
  cases shape with
  | nil => simp [mismatched] at h
  | cons n s =>
    dsimp only at h
    split at h
    · simp [mismatched] at h
    · cases hmissing : p.missingParameter? args with
      | some cause => simp [hmissing, misconfigured] at h
      | none =>
        rw [missingParameter?, Option.map_eq_none_iff, List.find?_eq_none] at hmissing
        exact fun k hk => by simpa [Option.isSome_iff_ne_none] using hmissing k hk

def rowsFrom (p : Program K) (s : Shape) (params env : Bindings K) :
    Except Fault (List (Grid s K)) := do
  let τ ← Declaration.bindFormulas params p.formulas env
  p.outputs.mapM (τ.row s)

/-- Applies a program, and then another one to the array with the resulting rows below. -/
def callThen (p q : Program K) (x : Nested K) (args : Arguments K) (weights : Weights K) :
    Except Fault (Tensor K) := do
  let y ← p.call x args weights
  let z ← (← x.toTensor).above y
  q.call (.tensor z) args weights

theorem length_of_rowsFrom {env : Bindings K} {ys : List (Grid s K)}
    (h : p.rowsFrom s params env = .ok ys) : ys.length = p.outputs.length := by
  obtain ⟨τ, -, h⟩ := bind_eq_ok.1 h
  exact (mapM_eq_ok.1 h).length_eq.symm

theorem call_eq (hp : p.ByFormulas) (hbackend : p.backend = .elementwise) {n : Nat}
    {g : Grid (n :: s) K} (hx : x.toTensor = .ok ⟨n :: s, g⟩) (hn : n = p.inputs.length)
    (hargs : args.Cover s p.params) (hparams : convert args p.params = .ok params)
    (weights : Weights K) :
    p.call x args weights = (do
      let rows ← p.rowsFrom s params (inputBindings p.inputs g.rows)
      return .ofGrid (Grid.stack rows)) := by
  have hfold := foldlM_bind_eq (s := s) hp params weights (inputBindings p.inputs g.rows)
  simp only [call, hx, ok_bind, hn, bne_self_eq_false, Bool.false_eq_true, if_false,
    missingParameter?_eq_none hargs, hp.missingWeights?_eq_none, hbackend, run, runElementwise,
    hfold, hparams, reduceCtorEq, decide_false, Bool.false_and]
  rfl

namespace Stages

/-- What is known after the first formulas has the numbers of what the second stage is given. -/
theorem handed (h : Stages p p₁ p₂) (hlen : p.inputs.length = rows.length) {τ τ₁ : Bindings K}
    (hτ : Declaration.bindFormulas params p₁.formulas (inputBindings p.inputs rows) = .ok τ)
    (htwins : Bindings.Twins s (formatsOf p₁.formulas) (formatsOf p₁.formulas) τ τ₁) :
    ∃ ys, p₁.outputs.mapM (τ₁.row s) = .ok ys ∧
      Bindings.Twins s (formatsOf p₁.formulas) (fun _ => .double) τ
        (inputBindings p₂.inputs (rows ++ ys)) := by
  have hbound (v : String) (hv : v ∈ p₁.outputs) : τ.lookup v ≠ none :=
    Declaration.lookup_bindFormulas_ne_none hτ (.inl (h.mem_outputs.1 hv))
  have : Nonempty (Grid s K) := ⟨Grid.replicate Scalar.nan⟩
  choose! y hy using fun v hv => htwins.row_exists (hbound v hv)
  refine ⟨p₁.outputs.map y, ?_, fun v => ?_⟩
  · rw [mapM_eq_ok_map]
    exact fun v hv => (hy v hv).1
  · rw [h.inputs₂, lookup_inputBindings_append hlen]
    split
    · rename_i hv
      obtain ⟨-, a, ha, hformat, hcarries⟩ := hy v hv
      exact .inr ⟨a, _, ha, rfl, hformat, rfl, _, hcarries, Values.carries_ofGrid _⟩
    · -- what the first stage does not produce is an input, which is a double in both ways
      rename_i hv
      have hname : v ∉ p₁.formulas.map Prod.fst := mt h.mem_outputs.2 hv
      rw [Declaration.lookup_bindFormulas hname hτ, formatsOf_eq,
        foldl_nextFormats_of_notMem hname]
      exact inputBindings_twins p.inputs rows v

theorem rowsFrom_eq (h : Stages p p₁ p₂) (i₀ : Index s) (hlen : p.inputs.length = rows.length)
    (hfirst : params.Share s params₁ p₁.params) (hsecond : params.Share s params₂ p₂.params)
    (hindifferent : indifferent (formatsOf p₁.formulas) (fun _ => .double) p₂.formulas = true) :
    p.rowsFrom s params (inputBindings p.inputs rows) = (do
      let ys ← p₁.rowsFrom s params₁ (inputBindings p₁.inputs rows)
      p₂.rowsFrom s params₂ (inputBindings p₂.inputs (rows ++ ys))) := by
  simp only [rowsFrom, h.formulas, h.inputs₁, h.outputs, Declaration.bindFormulas_append]
  have hread {q : Program K} {params' : Bindings K} (hshare : params.Share s params' q.params)
      (f : String × Expr K) (hf : f ∈ q.formulas) : params.Share s params' f.2.readsParams :=
    hshare.mono fun k hk => formulas_readsParams hf hk
  rcases Declaration.bindFormulas_twins i₀ (inputBindings_twins p.inputs rows) (hread hfirst)
    (indifferent_self _ _) with ⟨f, hf, hf₁⟩ | ⟨τ, τ₁, hτ, hτ₁, htwins⟩
  · simp only [hf, hf₁, error_bind]
  · obtain ⟨ys, hys, hhanded⟩ := h.handed hlen hτ htwins
    rcases Declaration.bindFormulas_twins i₀ hhanded (hread hsecond) hindifferent with
      ⟨f, hf, hf₂⟩ | ⟨σ, σ₂, hσ, hσ₂, htwins₂⟩
    · simp only [hτ, hτ₁, hys, hf, hf₂, ok_bind, error_bind]
    · simp only [hτ, hτ₁, hys, hσ, hσ₂, ok_bind]
      exact mapM_congr fun v _ => (htwins₂.row_eq v).symm

theorem call_eq_callThen (h : Stages p p₁ p₂)
    (hindifferent : indifferent (formatsOf p₁.formulas) (fun _ => .double) p₂.formulas = true)
    (hfit : args.Fit x p.params) (hgiven : ∀ k ∈ p.params, (args.lookup k).isSome)
    (weights : Weights K) : p.call x args weights = p₁.callThen p₂ x args weights := by
  cases hx : x.toTensor with
  | error f => simp only [call, callThen, hx, error_bind]
  | ok t =>
    obtain ⟨_ | ⟨n, s⟩, g⟩ := t
    · simp [call, callThen, hx, h.inputs₁, mismatched]
    by_cases hn : n = p.inputs.length
    · have hcover := hfit.cover hx hgiven
      have hfirst : p₁.params ⊆ p.params := fun k hk => h.mem_params.2 (.inl hk)
      have hsecond : p₂.params ⊆ p.params := fun k hk => h.mem_params.2 (.inr hk)
      obtain ⟨params, hparams, -⟩ := convert_show hcover
      obtain ⟨params₁, hparams₁, -⟩ := convert_show (hcover.mono hfirst)
      obtain ⟨params₂, hparams₂, -⟩ := convert_show (hcover.mono hsecond)
      have hlen : p.inputs.length = g.rows.length := by simp [Grid.rows, hn]
      have hrows := h.rowsFrom_eq (Index.unrank ⟨0, (hfit n s g hx).1⟩) hlen
        (hcover.share hparams hparams₁ hfirst (List.Subset.refl _))
        (hcover.share hparams hparams₂ hsecond (List.Subset.refl _)) hindifferent
      rw [callThen, call_eq h.laws h.backends.1 hx hn hcover hparams, hrows,
        call_eq h.laws₁ h.backends.2.1 hx (h.inputs₁ ▸ hn) (hcover.mono hfirst) hparams₁]
      cases hys : p₁.rowsFrom s params₁ (inputBindings p₁.inputs g.rows) with
      | error f => rfl
      | ok ys =>
        have hlen₂ : (g.rows ++ ys).length = p₂.inputs.length := by
          simp [h.inputs₂, length_of_rowsFrom hys, hlen]
        simp only [hx, ok_bind, pure_eq_ok, Tensor.above_stack]
        rw [call_eq h.laws₂ h.backends.2.2 rfl hlen₂ (hcover.mono hsecond) hparams₂,
          Grid.rows_stack]
        rfl
    · simp [call, callThen, hx, hn, h.inputs₁, mismatched]

/-- Whatever is returned in one of both ways is returned in the other one, given or not. -/
theorem call_eq_ok (h : Stages p p₁ p₂)
    (hindifferent : indifferent (formatsOf p₁.formulas) (fun _ => .double) p₂.formulas = true)
    (hfit : args.Fit x p.params) (weights : Weights K) (y : Tensor K) :
    p.call x args weights = .ok y ↔ p₁.callThen p₂ x args weights = .ok y := by
  constructor
  · intro hcall
    rwa [← h.call_eq_callThen hindifferent hfit (given_of_call hcall)]
  · intro hcall
    obtain ⟨y₁, hcall₁, hrest⟩ := bind_eq_ok.1 hcall
    obtain ⟨t, -, hrest⟩ := bind_eq_ok.1 hrest
    obtain ⟨z, -, hcall₂⟩ := bind_eq_ok.1 hrest
    rw [h.call_eq_callThen hindifferent hfit fun k hk => ?_]
    · exact hcall
    · exact (h.mem_params.1 hk).elim (given_of_call hcall₁ k) (given_of_call hcall₂ k)

end Stages

omit [Scalar K] in
/-- What compiles at once compiles in two stages. -/
theorem stages_exist {fs gs : List (Declaration K)} {inputs handed requested : List String}
    (hlaws : ∀ f ∈ fs ++ gs, f.lawName? = none)
    (hp : compile .elementwise (fs ++ gs) inputs requested = .ok p)
    (hhanded : ∀ v, v ∈ handed ↔ v ∈ fs.flatMap Declaration.outputs) :
    ∃ p₁ p₂, compile .elementwise fs inputs handed = .ok p₁ ∧
      compile .elementwise gs (inputs ++ handed) requested = .ok p₂ ∧ Stages p p₁ p₂ ∧
      p₁.fluxes = fs ∧ p₂.fluxes = gs := by
  have hdraft := draft_of_compile hp
  obtain ⟨havailable, houtputs⟩ := p.unavailable?_eq_none
  rw [hdraft] at havailable houtputs
  have hright : ProgramDraft.unavailable? (inputs ++ handed) gs = none := by
    refine ProgramDraft.unavailable?_mono (ProgramDraft.unavailable?_right havailable) ?_
    exact List.append_subset.2 ⟨List.subset_append_left _ _, fun v hv =>
      List.mem_append_right _ ((hhanded v).2 hv)⟩
  have hrequested (v : String) (hv : v ∈ requested) :
      v ∈ inputs ++ handed ∨ v ∈ gs.flatMap Declaration.outputs := by
    have hknown := houtputs v hv
    rw [List.flatMap_append, List.mem_append, ← hhanded] at hknown
    rwa [List.mem_append, or_assoc]
  obtain ⟨p₁, hp₁, hdraft₁⟩ : ∃ p₁ : Program K, compile .elementwise fs inputs handed = .ok p₁ ∧
      p₁.toProgramDraft = ⟨.elementwise, fs, inputs, handed⟩ :=
    compile_exists (ProgramDraft.unavailable?_left havailable)
      (fun v hv => .inr ((hhanded v).1 hv)) nofun
  obtain ⟨p₂, hp₂, hdraft₂⟩ : ∃ p₂ : Program K,
      compile .elementwise gs (inputs ++ handed) requested = .ok p₂ ∧
      p₂.toProgramDraft = ⟨.elementwise, gs, inputs ++ handed, requested⟩ :=
    compile_exists hright hrequested nofun
  refine ⟨p₁, p₂, hp₁, hp₂, ?_, by rw [hdraft₁], by rw [hdraft₂]⟩
  constructor
  · exact ⟨by rw [hdraft], by rw [hdraft₁], by rw [hdraft₂]⟩
  · intro f hf
    exact hlaws f (by rwa [hdraft] at hf)
  · rw [hdraft, hdraft₁, hdraft₂]
  · rw [hdraft, hdraft₁]
  · rw [hdraft, hdraft₁, hdraft₂]
  · rw [hdraft, hdraft₂]
  · rwa [hdraft₁]

/-- Declarations that compile at once compile in two stages, the second of which is handed the rows
of all names that the first one produces. If the second stage does not tell the formats of these
names from doubles, both ways return the same rows, or fail; given all parameters they end alike. -/
theorem compiled_in_stages {fs gs : List (Declaration K)} {inputs handed requested : List String}
    (hlaws : ∀ f ∈ fs ++ gs, f.lawName? = none)
    (hp : compile .elementwise (fs ++ gs) inputs requested = .ok p)
    (hhanded : ∀ v, v ∈ handed ↔ v ∈ fs.flatMap Declaration.outputs) :
    ∃ p₁ p₂, compile .elementwise fs inputs handed = .ok p₁ ∧
      compile .elementwise gs (inputs ++ handed) requested = .ok p₂ ∧
      (indifferent (formatsOf (fs.flatMap Declaration.formulas)) (fun _ => .double)
        (gs.flatMap Declaration.formulas) = true →
      ∀ (x : Nested K) (args : Arguments K) (weights : Weights K), args.Fit x p.params →
        ((∀ k ∈ p.params, (args.lookup k).isSome) →
          p.call x args weights = p₁.callThen p₂ x args weights) ∧
        ∀ y, p.call x args weights = .ok y ↔ p₁.callThen p₂ x args weights = .ok y) := by
  obtain ⟨p₁, p₂, hp₁, hp₂, hstages, rfl, rfl⟩ := stages_exist hlaws hp hhanded
  refine ⟨p₁, p₂, hp₁, hp₂, fun hindifferent x args weights hfit => ⟨fun hgiven => ?_, ?_⟩⟩
  · exact hstages.call_eq_callThen hindifferent hfit hgiven weights
  · exact hstages.call_eq_ok hindifferent hfit weights

def formula (output : String) (inputs params : List String) (e : Expr Float)
    (h : FluxDraft.fault? ⟨output, [output], inputs, params, [e], none⟩ = none) :
    Declaration Float :=
  .flux ⟨_, h⟩

def belowOne : Expr Float := .binary .lt (.var "x") (.const Scalar.one)

/-- A flag where the input is below one. -/
def low : Declaration Float := formula "y" ["x"] [] belowOne rfl

def masked : Declaration Float :=
  formula "w" ["y", "x"] ["k"] (.binary .mul (.var "y") (.binary .mul (.par "k") (.var "x"))) rfl

def maskedAtOnce : Program Float := ⟨⟨.elementwise, [low, masked], ["x"], ["w", "y"]⟩, by decide⟩

theorem masked_in_stages :
    let x : Nested Float := .tensor (.ofGrid (Grid.ofRows fun _ : Fin 1 =>
      (⟨#v[Scalar.ratio 1 2, Scalar.ofInt 2]⟩ : Grid [2] Float)))
    let args : Arguments Float := [("k", .tensor (.single (Scalar.ofInt 3)))]
    ∃ p₁ p₂, compile .elementwise [low] ["x"] ["y"] = .ok p₁ ∧
      compile .elementwise [masked] ["x", "y"] ["w", "y"] = .ok p₂ ∧
      maskedAtOnce.call x args [] = p₁.callThen p₂ x args [] ∧
      (maskedAtOnce.call x args []).map Tensor.toList =
        .ok [Scalar.ratio 3 2, Scalar.zero, Scalar.one, Scalar.zero] := by
  intro x args
  obtain ⟨p₁, p₂, hp₁, hp₂, hcall⟩ := compiled_in_stages (by decide)
    (show compile .elementwise ([low] ++ [masked]) ["x"] ["w", "y"] = .ok maskedAtOnce from
      compile_self maskedAtOnce) fun v => Iff.rfl
  have hfit : args.Fit x maskedAtOnce.params := by
    intro n s g hx
    obtain ⟨rfl, rfl⟩ : 1 = n ∧ [2] = s := List.cons.inj (congrArg Tensor.shape (Except.ok.inj hx))
    refine ⟨by decide, fun k hk a ha => ?_⟩
    obtain rfl : k = "k" := List.mem_singleton.1 hk
    obtain rfl := Option.some.inj ha
    exact ⟨_, rfl, rfl⟩
  exact ⟨p₁, p₂, hp₁, hp₂, (hcall rfl x args [] hfit).1 (by decide), by decide +kernel⟩

def Differ (fs gs : List (Declaration Float)) (x : Nested Float) (args : Arguments Float)
    (once staged : Except Fault (List Float)) : Prop :=
  (∀ f ∈ fs ++ gs, f.lawName? = none) ∧ once ≠ staged ∧ ∃ p p₁ p₂,
    compile .elementwise (fs ++ gs) ["x"] ["w"] = .ok p ∧
    compile .elementwise fs ["x"] ["y"] = .ok p₁ ∧
    compile .elementwise gs ["x", "y"] ["w"] = .ok p₂ ∧
    (p.call x args []).map Tensor.toList = once ∧
    (p₁.callThen p₂ x args []).map Tensor.toList = staged

theorem Differ.of_programs {fs gs : List (Declaration Float)} {x : Nested Float}
    {args : Arguments Float} {once staged : Except Fault (List Float)}
    (h : ProgramDraft.fault? ⟨.elementwise, fs ++ gs, ["x"], ["w"]⟩ = none)
    (h₁ : ProgramDraft.fault? ⟨.elementwise, fs, ["x"], ["y"]⟩ = none)
    (h₂ : ProgramDraft.fault? ⟨.elementwise, gs, ["x", "y"], ["w"]⟩ = none)
    (hlaws : ∀ f ∈ fs ++ gs, f.lawName? = none) (hne : once ≠ staged)
    (honce : ((⟨_, h⟩ : Program Float).call x args []).map Tensor.toList = once)
    (hstaged : ((⟨_, h₁⟩ : Program Float).callThen ⟨_, h₂⟩ x args []).map Tensor.toList = staged) :
    Differ fs gs x args once staged :=
  ⟨hlaws, hne, _, _, _, compile_self ⟨_, h⟩, compile_self ⟨_, h₁⟩, compile_self ⟨_, h₂⟩, honce,
    hstaged⟩

def halves (n : Nat) : Nested Float :=
  .tensor (.ofGrid (Grid.replicate (Scalar.ratio 1 2) : Grid [1, n] Float))

def tenth : Expr Float := .const (Scalar.ratio 1 10)

/-- An integer of eight bits, from a flag. -/
def whole (flag : Expr Float) : Expr Float := .binary .pow flag flag

/-- The sum of two flags is a flag; what is of half precision, also through an integer of eight bits
or a constant, is rounded; a parameter need not have the shape of a row; a scalar has a power even
where there is no column; and another fault may come first. -/
theorem stages_differ :
    Differ [low] [formula "w" ["y"] [] (.binary .add (.var "y") (.var "y")) rfl] (halves 1) []
      (.ok [Scalar.one]) (.ok [Scalar.ofInt 2]) ∧
    Differ [formula "y" ["x"] [] (.unary .sqrt belowOne) rfl]
      [formula "w" ["y"] [] (.binary .mul (.var "y") tenth) rfl] (halves 1) []
      (.ok [Scalar.ratio 819 8192]) (.ok [Scalar.ratio 1 10]) ∧
    Differ [formula "y" ["x"] [] (whole belowOne) rfl]
      [formula "w" ["y"] [] (.binary .mul (.unary .sqrt (.var "y")) tenth) rfl] (halves 1) []
      (.ok [Scalar.ratio 819 8192]) (.ok [Scalar.ratio 1 10]) ∧
    Differ [formula "y" [] [] tenth rfl]
      [formula "w" ["x", "y"] [] (.binary .mul (.unary .sqrt belowOne) (.var "y")) rfl] (halves 1)
      [] (.ok [Scalar.ratio 819 8192]) (.ok [Scalar.ratio 1 10]) ∧
    Differ [formula "y" [] ["k"] (.par "k") rfl] [formula "w" ["x"] [] (.var "x") rfl] (halves 1)
      [("k", .list [.entry (.real Scalar.one), .entry (.real (Scalar.ofInt 2))])]
      (.ok [Scalar.ratio 1 2]) (.error .value) ∧
    Differ [formula "y" [] [] (.const (Scalar.ratio 1 2)) rfl]
      [formula "w" ["y"] [] (.binary .pow (whole (.binary .lt (.var "y") (.const Scalar.one)))
        (.unary .neg (whole (.binary .lt (.var "y") (.const Scalar.one))))) rfl] (halves 0) []
      (.error .value) (.ok []) ∧
    Differ [formula "y" ["x"] [] (.unary .neg belowOne) rfl]
      [formula "w" ["y"] ["m"] (.binary .mul (.var "y") (.par "m")) rfl] (halves 1) []
      (.error (.configuration (.missingParameter "m" []))) (.error .operand) := by
  refine ⟨?_, ?_, ?_, ?_, ?_, ?_, ?_⟩ <;>
    exact .of_programs (by decide) (by decide) (by decide) (by decide) (by decide)
      (by decide +kernel) (by decide +kernel)

end Program

end Catchment
