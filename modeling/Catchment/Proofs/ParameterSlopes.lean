import Catchment.Proofs.ElementwiseLaws
import Catchment.Proofs.IndependentNodes
import Catchment.Proofs.PolynomialFormulas

/-!
# Slopes in the parameters

The slopes of a symbolic program form a matrix with a row for every output and a column for every
parameter. Where the formulas are polynomial the matrix is the derivative of the program in its
parameters, also where an output depends on a parameter only through other outputs.
-/
namespace Catchment

open ExactArithmetic

theorem getElem?_flatten_map {α β γ : Type} (F : α → β → γ) (xs : List α) (ys : List β)
    (i : Fin xs.length) (j : Fin ys.length) :
    ((xs.map fun x => ys.map (F x)).flatten)[i.val * ys.length + j.val]? =
      some (F (xs.get i) (ys.get j)) := by
  obtain ⟨i, hi⟩ := i
  induction xs generalizing i with
  | nil => exact absurd hi (Nat.not_lt_zero _)
  | cons x xs ih =>
    rw [List.map_cons, List.flatten_cons]
    cases i with
    | zero =>
      rw [List.getElem?_append_left (by simp)]
      simp
    | succ i =>
      rw [List.getElem?_append_right (by rw [List.length_map]; nlinarith), List.length_map]
      have hplace : (i + 1) * ys.length + j.val - ys.length = i * ys.length + j.val := by
        rw [Nat.add_mul, Nat.one_mul]
        omega
      rw [hplace]
      exact ih i (Nat.lt_of_succ_lt_succ hi)

/-- The matrix of what two lists of things give in pairs. -/
def Grid.pairs {α β γ : Type} (F : α → β → γ) (xs : List α) (ys : List β) :
    Grid [xs.length, ys.length] γ :=
  ofFn fun k => F (xs.get k.head) (ys.get k.tail.head)

@[simp] theorem Grid.get_pairs {α β γ : Type} (F : α → β → γ) (xs : List α) (ys : List β)
    (i : Fin xs.length) (j : Fin ys.length) :
    (pairs F xs ys).get (.cons i (.node j)) = F (xs.get i) (ys.get j) := get_ofFn _ _

theorem Tensor.ofList?_pairs {α β γ : Type} (F : α → β → γ) (xs : List α) (ys : List β) :
    Tensor.ofList? [xs.length, ys.length] (xs.map fun x => ys.map (F x)).flatten =
      some (.ofGrid (Grid.pairs F xs ys)) := by
  have hlen : (xs.map fun x => ys.map (F x)).flatten.length =
      Shape.size [xs.length, ys.length] := by
    simp [Shape.size, List.length_flatten, Function.comp_def]
  rw [ofList?, Grid.ofList?, dif_pos hlen, Option.map_some]
  refine congrArg (some ∘ ofGrid) (Grid.ext_get fun k => ?_)
  have hrank : k.rank.val = k.head.val * ys.length + k.tail.head.val := by
    obtain ⟨i, j, _⟩ := k
    simp [Index.rank, Index.head, Index.tail]
  rw [Grid.pairs, Grid.get_ofFn]
  refine Option.some.inj (Eq.trans ?_ (getElem?_flatten_map F xs ys k.head k.tail.head))
  rw [← hrank, List.getElem?_eq_getElem (by rw [hlen]; exact k.rank.isLt)]
  rfl

theorem Tensor.ofGrid_stack_map {α β : Type} {s : Shape} (F : α → Index s → β) (xs : List α) :
    Tensor.ofGrid (Grid.stack (xs.map fun x => Grid.ofFn (F x))) =
      .ofGrid (Grid.ofFn fun k : Index (xs.length :: s) => F (xs.get k.head) k.tail) := by
  refine ofGrid_stack (List.ext_getElem (by simp [Grid.rows]) fun i hi hi' => ?_)
  refine Grid.ext_get fun k => ?_
  simp only [Grid.rows, List.getElem_ofFn, List.getElem_map, Grid.get_row, Grid.get_ofFn]
  exact Grid.get_ofFn _ (.cons ⟨i, by simpa using hi'⟩ k)

theorem Declaration.mem_exprs {K : Type} {f : Declaration K} {q : String × Expr K}
    (hq : q ∈ f.formulas) : q.2 ∈ f.exprs := by
  cases f with
  | flux f => exact (List.of_mem_zip hq).2
  | state d =>
    obtain rfl := List.mem_singleton.1 hq
    exact List.mem_singleton_self _
  | neural n => exact nomatch hq

namespace Program

variable {K : Type} [Scalar K] {p : Program K}

def dualsAt (p : Program K) (inputs params : List (String × K)) (k : String) : String → Dual K :=
  computedDuals
    (valueOf (.constant Scalar.nan)
      (params.map fun r => (r.1, ⟨r.2, if r.1 = k then some Scalar.one else none⟩)))
    p.formulas (valueOf (.constant Scalar.nan) (inputs.map fun r => (r.1, .constant r.2)))

theorem valueOf_foldl_dual (fs : List (String × Expr K)) (missing : Dual K)
    (env : List (String × Dual K)) (dp : String → Dual K) :
    valueOf missing (fs.foldl (fun env f =>
      (f.1, f.2.dual (valueOf missing env) dp) :: env) env) =
      computedDuals dp fs (valueOf missing env) := by
  induction fs generalizing env with
  | nil => rfl
  | cons f fs ih =>
    rw [List.foldl_cons, computedDuals, ← valueOf_cons]
    exact ih _

theorem jacobianAt_eq (inputs params : List (String × K)) :
    p.jacobianAt inputs params = p.outputs.map fun o => p.params.map fun k =>
      (p.dualsAt inputs params k o).slope.getD Scalar.zero := by
  have hduals (k : String) := valueOf_foldl_dual p.formulas (.constant Scalar.nan)
    (inputs.map fun r => (r.1, .constant r.2))
    (valueOf (.constant Scalar.nan)
      (params.map fun r => (r.1, ⟨r.2, if r.1 = k then some Scalar.one else none⟩)))
  unfold formulas at hduals
  simp only [jacobianAt, hduals]
  refine List.ext_getElem (by simp) fun i hi hi' => ?_
  rw [List.length_map] at hi'
  simp [hi', dualsAt, formulas]

/-- Every parameter is given as a single number. -/
def Arguments.AreNumbers (args : Arguments K) (names : List String) (v : String → K) : Prop :=
  ∀ k ∈ names, ∃ a, args.lookup k = some a ∧ single a = .ok (v k)

theorem toTensor_of_single {a : Nested K} {c : K} (h : single a = .ok c) :
    a.toTensor = .ok (.single c) := by
  cases a with
  | entry e =>
    have he : e.toReal = .ok c := h
    have hgrid : (⟨#v[c]⟩ : Grid [] K) = Grid.replicate c :=
      Grid.ext_get fun i => (Grid.get_replicate c i).symm
    simp [Nested.toTensor, Nested.shape, Nested.entries, he, Tensor.ofList?, Grid.ofList?,
      Tensor.single, Tensor.ofGrid, ← hgrid]
  | text s => simp [single] at h
  | tensor t =>
    obtain ⟨shape, g⟩ := t
    unfold single at h
    dsimp only at h
    split at h
    · rename_i hshape
      obtain rfl := List.isEmpty_iff.1 hshape
      have hhead : g.toList.head? = some c := orFault_eq_ok.1 h
      rw [List.head?_eq_getElem?] at hhead
      obtain ⟨_, hhead⟩ := List.getElem?_eq_some_iff.1 hhead
      refine congrArg (Except.ok ∘ Tensor.ofGrid) (Grid.ext_get fun i => ?_)
      rw [Grid.get_replicate, ← hhead]
      rfl
    · simp at h
  | list items => simp [single] at h

namespace Arguments.AreNumbers

variable {args : Arguments K} {names : List String} {v : String → K}

theorem cover (h : args.AreNumbers names v) : args.Cover [] names := by
  intro k hk
  obtain ⟨a, ha, hsingle⟩ := h k hk
  exact ⟨a, _, ha, toTensor_of_single hsingle, rfl⟩

theorem convert_eq (h : args.AreNumbers names v) :
    convert args names = .ok (names.map fun k => (k, .ofTensor (.single (v k)))) := by
  refine mapM_eq_ok_map.2 fun k hk => ?_
  obtain ⟨a, ha, hsingle⟩ := h k hk
  simp [ha, toTensor_of_single hsingle]

theorem singles_eq (h : args.AreNumbers names v) : (names.mapM fun k => do
    return (k, ← single (← Values.orFault .unknownName (args.lookup k)))) =
      .ok (names.map fun k => (k, v k)) := by
  refine mapM_eq_ok_map.2 fun k hk => ?_
  obtain ⟨a, ha, hsingle⟩ := h k hk
  simp [ha, hsingle]

theorem of_reals (names : List String) (v : String → K) :
    AreNumbers (names.map fun k => (k, .entry (.real (v k)))) names v :=
  fun _ hk => ⟨_, lookup_map_self (fun k => Nested.entry (.real (v k))) hk, rfl⟩

end Arguments.AreNumbers

theorem argumentAt_single {names : List String} {k : String} (v : String → K) (hk : k ∈ names)
    (i : Index []) :
    argumentAt (names.map fun k => (k, Values.ofTensor (.single (v k)))) i k = v k := by
  rw [argumentAt, lookup_map_self (fun k => Values.ofTensor (.single (v k))) hk]
  exact (Grid.get_ofFn _ _).trans (Grid.get_replicate _ _)

variable {g : Grid [p.inputs.length] K} {x : Nested K} {args : Arguments K} {v : String → K}

def columnInputs (p : Program K) (g : Grid [p.inputs.length] K) : List (String × K) :=
  (p.inputs.zip g.toList).reverse

theorem inputsAt_rows (i : Index []) :
    inputsAt p.inputs g.rows i = valueOf Scalar.nan (p.columnInputs g) := by
  have hrows : g.rows.map (·.get i) = g.toList := by
    refine List.ext_getElem (by simp [Grid.rows, Grid.length_toList]) fun k hk hk' => ?_
    have hget := g.getElem?_toList ⟨k, hk'.trans_eq g.length_toList⟩
    rw [List.getElem?_eq_getElem hk'] at hget
    rw [Option.some.inj hget]
    simp only [Grid.rows, List.getElem_map, List.getElem_ofFn, Grid.get_row]
    rfl
  have hzip : p.inputs.zip g.toList = (p.inputs.zip g.rows).map fun r => (r.1, r.2.get i) := by
    rw [← hrows, List.zip_map_right]
    rfl
  rw [inputsAt, columnInputs, hzip]

def columnOutputs (p : Program K) (inputs : List (String × K)) (v : String → K) :
    Grid [p.outputs.length] K :=
  Grid.ofFn fun k => computed v p.formulas (valueOf Scalar.nan inputs) (p.outputs.get k.head)

theorem call_column (hbackend : p.backend = .symbolic) (hx : x.toTensor = .ok (.ofGrid g))
    (hargs : args.AreNumbers p.params v) (weights : Weights K) :
    p.call x args weights = .ok (.ofGrid (p.columnOutputs (p.columnInputs g) v)) := by
  obtain ⟨params, hconvert, hshow⟩ := convert_show hargs.cover
  rw [call_symbolic_eq_columnRows hbackend (byFormulas_of_symbolic hbackend) hx hargs.cover
    hconvert hshow weights]
  obtain rfl := Except.ok.inj (hargs.convert_eq.symm.trans hconvert)
  have hparams (j : Index []) := computed_congr (x := valueOf Scalar.nan (p.columnInputs g))
    fun f hf k hk => argumentAt_single v (formulas_readsParams (r := p) hf hk) j
  simp only [columnRows, inputsAt_rows, hparams, Tensor.ofGrid_stack_map]
  rfl

theorem jacobian_column (hx : x.toTensor = .ok (.ofGrid g)) (hargs : args.AreNumbers p.params v) :
    p.jacobian x args = .ok (.ofGrid (Grid.pairs (fun o k =>
      (p.dualsAt (p.columnInputs g) (p.params.map fun k => (k, v k)) k o).slope.getD Scalar.zero)
      p.outputs p.params)) := by
  have hsize : (Tensor.ofGrid g).size = p.inputs.length := Nat.mul_one _
  rw [jacobian, missingParameter?_eq_none hargs.cover]
  simp only [hx, ok_bind, hsize, bne_self_eq_false, Bool.false_eq_true, if_false,
    hargs.singles_eq, jacobianAt_eq, Tensor.ofList?_pairs]
  rfl

theorem valueOf_constant (inputs : List (String × K)) (name : String) :
    valueOf (.constant Scalar.nan) (inputs.map fun r => (r.1, Dual.constant r.2)) name =
      .constant (valueOf Scalar.nan inputs name) := by
  rw [valueOf, valueOf, lookup_map_snd]
  cases inputs.lookup name <;> rfl

theorem valueOf_parameter (v : String → K) (i j : Fin p.params.length) :
    valueOf (.constant Scalar.nan) ((p.params.map fun k => (k, v k)).map fun r =>
      (r.1, (⟨r.2, if r.1 = p.params.get i then some Scalar.one else none⟩ : Dual K)))
      (p.params.get j) = ⟨v (p.params.get j), if i = j then some Scalar.one else none⟩ := by
  have honce : p.params.Nodup := nodup_orderedUnion _
  have hlookup := lookup_map_self
    (fun k => (⟨v k, if k = p.params.get i then some Scalar.one else none⟩ : Dual K))
    (List.get_mem p.params j)
  rw [valueOf, List.map_map, Function.comp_def, hlookup, Option.getD_some]
  simp only [honce.get_inj_iff, eq_comm]

variable [ExactArithmetic K]

/-- Some distance away from parameters in a direction, a program returns its outputs there plus the
distance times the matrix applied to the direction, up to a polynomial multiple of the squared
distance. The matrix has a row for every output and a column for every parameter of the program. -/
def IsDerivative (p : Program K) (x : Nested K) (weights : Weights K) (v : String → K) {m : Nat}
    (J : Grid [m, p.params.length] K) (y : Grid [m] K) : Prop :=
  ∀ h : String → K, ∃ r : Fin m → Polynomial ℝ, ∀ (e : K) (args : Arguments K),
    args.AreNumbers p.params (fun k => v k + e * h k) → ∃ y' : Grid [m] K,
      p.call x args weights = .ok (.ofGrid y') ∧
      ∀ i, toReal (y'.get (.node i)) = toReal (y.get (.node i)) +
        toReal e * ∑ k, toReal (J.get (.cons i (.node k))) * toReal (h (p.params.get k)) +
        toReal e ^ 2 * (r i).eval (toReal e)

variable [ExactNegation K]

/-- An output changes by its slopes when the parameters move in a direction. -/
theorem output_expands (hpoly : ∀ f ∈ p.formulas, f.2.isPolynomial = true)
    (inputs : List (String × K)) (v h : String → K) (o : String) :
    Expands (fun j : Fin p.params.length => toReal (h (p.params.get j)))
      (fun e => computed (fun k => v k + e * h k) p.formulas (valueOf Scalar.nan inputs) o)
      fun j => p.dualsAt inputs (p.params.map fun k => (k, v k)) (p.params.get j) o := by
  refine computed_expands (x := fun _ => valueOf Scalar.nan inputs) hpoly (fun name => ?_)
    (fun f hf k hk => ?_) o
  · simp only [valueOf_constant]
    exact .constant _
  · have hk := formulas_readsParams hf hk
    obtain ⟨j, rfl⟩ := List.mem_iff_get.1 hk
    simp only [valueOf_parameter]
    exact .param (fun _ => rfl) rfl

/-- In exact arithmetic the slopes of a program of polynomial formulas are its derivative in the
parameters, wherever these are numbers. -/
theorem jacobian_is_derivative {fluxes : List (Declaration K)} {inputs outputs : List String}
    (hp : compile .symbolic fluxes inputs outputs = .ok p)
    (hpoly : ∀ f ∈ fluxes, ∀ e ∈ f.exprs, e.isPolynomial = true) {x : Nested K}
    {g : Grid [inputs.length] K} (hx : x.toTensor = .ok (.ofGrid g)) {args : Arguments K}
    {v : String → K} (hargs : args.AreNumbers p.params v) (weights : Weights K) :
    ∃ (J : Grid [outputs.length, p.params.length] K) (y : Grid [outputs.length] K),
      p.jacobian x args = .ok (.ofGrid J) ∧ p.call x args weights = .ok (.ofGrid y) ∧
      p.IsDerivative x weights v J y := by
  obtain ⟨d, hd⟩ := p
  obtain rfl : d = ⟨.symbolic, fluxes, inputs, outputs⟩ := draft_of_compile hp
  let p : Program K := ⟨_, hd⟩
  have hformulas : ∀ q ∈ p.formulas, q.2.isPolynomial = true := fun q hq => by
    obtain ⟨f, hf, hq⟩ := List.mem_flatMap.1 hq
    exact hpoly f hf q.2 (f.mem_exprs hq)
  refine ⟨_, _, jacobian_column (p := p) hx hargs, call_column (p := p) rfl hx hargs weights,
    fun h => ?_⟩
  have hexpands (i : Fin outputs.length) :=
    output_expands (p := p) hformulas (p.columnInputs g) v h (outputs.get i)
  choose r hr using fun i => (hexpands i).change
  refine ⟨r, fun e args' hargs' => ⟨_, call_column (p := p) rfl hx hargs' weights, fun i => ?_⟩⟩
  have hstart (k : String) : v k + Scalar.zero * h k = v k := toReal_injective (by simp)
  have hchange := hr i e
  simp only [hstart, changeAlong, Dual.rate] at hchange
  simp only [columnOutputs, Grid.get_ofFn, Grid.get_pairs]
  exact hchange

/-- The flow is the square of an intermediate result and a parameter. The parameter of the
intermediate result has the name of a variable, and the flow depends on it through that only. -/
def squaredFlow : List (Declaration ExactReal) :=
  [.flux ⟨⟨"level", ["a"], ["S"], ["S"], [.binary .mul (.par "S") (.var "S")], none⟩, by decide⟩,
    .flux ⟨⟨"flow", ["q"], ["a"], ["k"],
      [.binary .sub (.binary .mul (.var "a") (.var "a")) (.unary .neg (.par "k"))], none⟩,
      by decide⟩]

noncomputable def threeColumn : Nested ExactReal :=
  .tensor (.ofGrid (Grid.replicate (Scalar.ofInt 3) : Grid [1] ExactReal))

noncomputable def twos : Arguments ExactReal :=
  ["S", "k"].map fun k => (k, .entry (.real (Scalar.ofInt 2)))

theorem squaredFlow_derivative : ∃ p, compile .symbolic squaredFlow ["S"] ["q", "a"] = .ok p ∧
    ∃ (J : Grid [2, p.params.length] ExactReal) (y : Grid [2] ExactReal),
      p.jacobian threeColumn twos = .ok (.ofGrid J) ∧
      p.call threeColumn twos [] = .ok (.ofGrid y) ∧
      p.IsDerivative threeColumn [] (fun _ => Scalar.ofInt 2) J y := by
  obtain ⟨p, hp, hdraft⟩ : ∃ p : Program ExactReal,
      compile .symbolic squaredFlow ["S"] ["q", "a"] = .ok p ∧
        p.toProgramDraft = ⟨.symbolic, squaredFlow, ["S"], ["q", "a"]⟩ :=
    compile_exists rfl (by decide) fun _ => by decide
  have hparams : p.params = ["S", "k"] := by
    rw [params, hdraft]
    rfl
  have hpoly : ∀ f ∈ squaredFlow, ∀ e ∈ f.exprs, e.isPolynomial = true := by
    simp [squaredFlow, Declaration.exprs, Expr.isPolynomial]
  have hargs : twos.AreNumbers p.params fun _ => Scalar.ofInt 2 := by
    rw [hparams]
    exact .of_reals _ _
  exact ⟨p, hp, jacobian_is_derivative hp hpoly rfl hargs []⟩

end Program

end Catchment
