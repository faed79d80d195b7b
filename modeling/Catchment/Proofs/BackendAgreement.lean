import Catchment.Proofs.FlagFormulas
import Catchment.Proofs.PreparedRows

/-!
# Agreement of the backends

Both backends compile the same lists of declarations by formulas. Over numbers that are all
comparable, and where no operation is applied to flags that is not meant for them, the two programs
return the same rows: at every index each output is the number computed in the column there.
-/
namespace Catchment

variable {K : Type} {s : Shape}

namespace ReadsKnown

variable {known known' : List String} {fs gs : List (String × Expr K)}

theorem mono (h : ReadsKnown known fs) (hsub : known ⊆ known') : ReadsKnown known' fs := by
  induction fs generalizing known known' with
  | nil => trivial
  | cons f fs ih => exact ⟨List.Subset.trans h.1 hsub, ih h.2 (List.cons_subset_cons f.1 hsub)⟩

theorem append (hf : ReadsKnown known fs) (hg : ReadsKnown (fs.map Prod.fst ++ known) gs) :
    ReadsKnown known (fs ++ gs) := by
  induction fs generalizing known with
  | nil => exact hg
  | cons f fs ih =>
    refine ⟨hf.1, ih hf.2 (hg.mono ?_)⟩
    simp [List.subset_def, or_left_comm]

end ReadsKnown

theorem FluxDraft.readsKnown_of_readFault? {owner : String} {params vars : List String}
    {fs : List (String × Expr K)} (h : readFault? owner params vars fs = none) :
    ReadsKnown vars fs := by
  induction fs generalizing vars with
  | nil => trivial
  | cons f fs ih =>
    obtain ⟨output, e⟩ := f
    rw [readFault?] at h
    split at h
    · simp at h
    · rename_i hread
      exact ⟨(undeclaredRead?_eq_none hread).1, ih h⟩

theorem Declaration.readsKnown {f : Declaration K} (h : f.lawName? = none) :
    ReadsKnown f.reads f.formulas := by
  cases f with
  | flux f =>
    have hlaw : f.law = none := by simpa [lawName?] using h
    exact FluxDraft.readsKnown_of_readFault? (f.wellFormed.2.2.1 hlaw).2
  | state d => exact ⟨d.reads_subset, trivial⟩
  | neural n => simp [lawName?] at h

theorem ProgramDraft.readsKnown_of_unavailable? {known : List String} {fs : List (Declaration K)}
    (h : unavailable? known fs = none) (hlaws : ∀ f ∈ fs, f.lawName? = none) :
    ReadsKnown known (fs.flatMap Declaration.formulas) := by
  induction fs generalizing known with
  | nil => trivial
  | cons f fs ih =>
    obtain ⟨hreads, hrest⟩ := unavailable?_cons.1 h
    have hlaw := hlaws f List.mem_cons_self
    have hf : ReadsKnown known f.formulas := (Declaration.readsKnown hlaw).mono hreads
    refine hf.append ?_
    rw [Declaration.map_fst_formulas hlaw]
    exact ih hrest fun g hg => hlaws g (List.mem_cons_of_mem f hg)

namespace Program

variable {p : Program K}

theorem unavailable?_eq_none (p : Program K) :
    ProgramDraft.unavailable? p.inputs p.fluxes = none ∧
      ∀ o ∈ p.outputs, o ∈ p.inputs ∨ o ∈ p.fluxes.flatMap Declaration.outputs := by
  have h := p.accepted
  simp only [ProgramDraft.fault?, List.findSome?_eq_none_iff, List.mem_cons, List.not_mem_nil,
    or_false, forall_eq_or_imp, forall_eq, id, Option.map_eq_none_iff, List.find?_eq_none] at h
  obtain ⟨hreads, houtputs, -⟩ := h
  refine ⟨hreads, fun o ho => List.mem_append.1 ?_⟩
  have hknown := houtputs o ho
  rwa [Bool.not_eq_true, Bool.not_eq_false', List.contains_iff_mem] at hknown

theorem ByFormulas.readsKnown (hp : p.ByFormulas) : ReadsKnown p.inputs p.formulas :=
  ProgramDraft.readsKnown_of_unavailable? p.unavailable?_eq_none.1 hp

theorem ByFormulas.outputs_known (hp : p.ByFormulas) {o : String} (ho : o ∈ p.outputs) :
    o ∈ p.formulas.map Prod.fst ++ p.inputs := by
  have hnames : p.formulas.map Prod.fst = p.fluxes.flatMap Declaration.outputs := by
    rw [formulas, List.map_flatMap]
    exact List.flatMap_congr fun f hf => Declaration.map_fst_formulas (hp f hf)
  rw [hnames, List.mem_append]
  exact (p.unavailable?_eq_none.2 o ho).symm

theorem ByFormulas.networks_eq_nil (hp : p.ByFormulas) : p.networks = [] := by
  refine List.eq_nil_iff_forall_not_mem.2 fun w hw => ?_
  obtain ⟨names, hnames, hw⟩ := mem_orderedUnion.1 hw
  obtain ⟨f, hf, rfl⟩ := List.mem_map.1 hnames
  rw [Declaration.networks_eq_nil (hp f hf)] at hw
  exact List.not_mem_nil hw

theorem ByFormulas.missingWeights?_eq_none (hp : p.ByFormulas) (weights : Weights K) :
    p.missingWeights? weights = none := by
  rw [missingWeights?, hp.networks_eq_nil]
  rfl

end Program

namespace Program

variable [Scalar K] {rows : List (Grid s K)}

/-- Every parameter has a value that is an array and that can be repeated over a shape. -/
def Arguments.Cover (args : Arguments K) (s : Shape) (names : List String) : Prop :=
  ∀ k ∈ names, ∃ a t, args.lookup k = some a ∧ a.toTensor = .ok t ∧ (t.repeat? s).isSome

def inputsAt (names : List String) (rows : List (Grid s K)) (i : Index s) : String → K :=
  valueOf Scalar.nan ((names.zip rows).map fun r => (r.1, r.2.get i)).reverse

def argumentAt (params : Bindings K) (i : Index s) (k : String) : K :=
  ((params.lookup k).bind (·.tensor.repeat? s)).elim Scalar.nan (·.get i)

theorem inputBindings_show {names : List String} (hlen : names.length = rows.length) :
    (inputBindings names rows).Show names (fun _ => false) (inputsAt names rows) := by
  intro v hv
  have hmem : v ∈ ((names.zip rows).reverse).map Prod.fst := by
    rw [List.map_reverse, List.mem_reverse, List.map_fst_zip (Nat.le_of_eq hlen)]
    exact hv
  obtain ⟨g, hg⟩ := lookup_exists hmem
  refine ⟨.ofGrid g, ?_, ?_⟩
  · have hzip : names.zip (rows.map Values.ofGrid) =
        (names.zip rows).map fun r => (r.1, Values.ofGrid r.2) := List.zip_map_right ..
    rw [inputBindings, Declaration.bindAll_eq, List.append_nil, hzip, ← List.map_reverse,
      lookup_map_snd, hg]
    rfl
  · have hvalue (i : Index s) : inputsAt names rows i v = g.get i := by
      rw [inputsAt, ← List.map_reverse, valueOf, lookup_map_snd (fun r : Grid s K => r.get i), hg]
      rfl
    simp only [hvalue]
    exact Values.shows_ofGrid g

theorem convert_show {args : Arguments K} {names : List String} (h : args.Cover s names) :
    ∃ params, convert args names = .ok params ∧
      params.Show names (fun _ => false) (argumentAt (s := s) params) := by
  let entry (k : String) : Except Fault (String × Values K) := do
    let a ← Values.orFault .unknownName (args.lookup k)
    return (k, .ofTensor (← a.toTensor))
  have hentries (k : String) (hk : k ∈ names) : ∃ q : String × Values K,
      (entry k = .ok q ∧ ∃ t g, q.2 = .ofTensor t ∧ t.repeat? s = some g) ∧ q.1 = k := by
    obtain ⟨a, t, ha, ht, hrepeat⟩ := h k hk
    obtain ⟨g, hg⟩ := Option.isSome_iff_exists.1 hrepeat
    exact ⟨(k, .ofTensor t), ⟨by simp [entry, ha, ht], t, g, rfl, hg⟩, rfl⟩
  obtain ⟨params, hparams⟩ := forall₂_exists.2 hentries
  refine ⟨params, mapM_eq_ok.2 (hparams.imp fun k q hq => hq.1.1), fun k hk => ?_⟩
  have hpairs := hparams.imp (S := fun k q => (∃ t g, q.2 = Values.ofTensor t ∧
    t.repeat? s = some g) ∧ q.1 = k) fun k q hq => ⟨hq.1.2, hq.2⟩
  obtain ⟨w, hw, t, g, rfl, hg⟩ := lookup_of_forall₂
    (R := fun _ w => ∃ t g, w = Values.ofTensor t ∧ t.repeat? s = some g) hpairs hk
  have hvalue (i : Index s) : argumentAt params i k = g.get i := by
    simp [argumentAt, hw, Values.ofTensor, hg]
  refine ⟨_, hw, ?_⟩
  simp only [hvalue]
  exact Values.shows_ofTensor hg

variable {p : Program K} {params : Bindings K}

def columnRows (p : Program K) (rows : List (Grid s K)) (q : Index s → String → K) :
    List (Grid s K) :=
  p.outputs.map fun o => Grid.ofFn fun i => computed (q i) p.formulas (inputsAt p.inputs rows i) o

theorem runElementwise_eq_columnRows [ExactOrder K] (hp : p.ByFormulas)
    (hflags : sparesFlags (fun _ => false) p.formulas = true)
    (hlen : p.inputs.length = rows.length) {q : Index s → String → K}
    (hparams : params.Show p.params (fun _ => false) q) (weights : Weights K) :
    p.runElementwise rows params weights = .ok (p.columnRows rows q) := by
  obtain ⟨env, F, henv, hshow⟩ := Declaration.bindFormulas_shows (inputBindings_show hlen) hparams
    (fun f hf k hk => formulas_readsParams hf hk) hp.readsKnown hflags
  have hfold := foldlM_bind_eq (s := s) hp params weights (inputBindings p.inputs rows)
  rw [runElementwise, hfold]
  change (Declaration.bindFormulas params p.formulas _ >>= _) = _
  rw [henv, ok_bind, columnRows, mapM_eq_ok_map]
  intro o ho
  obtain ⟨w, hw, hshows⟩ := hshow o (hp.outputs_known ho)
  simp [hw, hshows.repeat?]

theorem runSymbolic_eq_columnRows {q : Index s → String → K}
    (hparams : (s.size = 0 || p.outputs.isEmpty) = false →
      params.Show p.params (fun _ => false) q) :
    p.runSymbolic rows params = .ok (p.columnRows rows q) := by
  unfold runSymbolic
  cases hempty : (decide (s.size = 0) || p.outputs.isEmpty) with
  | true =>
    refine congrArg Except.ok (List.map_congr_left fun o ho => Grid.ext_get fun i => ?_)
    have hsize : s.size = 0 := by
      simpa [List.ne_nil_of_mem ho] using hempty
    exact absurd i.rank.isLt (by omega)
  | false =>
    have hps : (p.params.mapM fun k => do
        let v ← Values.orFault .unknownName (params.lookup k)
        return (k, ← Values.orFault .value (v.tensor.repeat? s))) =
        .ok (p.params.map fun k => (k, Grid.ofFn fun i => q i k)) := by
      rw [mapM_eq_ok_map]
      intro k hk
      obtain ⟨w, hw, hshows⟩ := hparams hempty k hk
      simp [hw, hshows.repeat?]
    have hcolumn (i : Index s) : valueOf Scalar.nan
        (p.column ((p.inputs.zip rows).map fun r => (r.1, r.2.get i)).reverse
          (p.params.map fun k => (k, q i k))) =
        computed (q i) p.formulas (inputsAt p.inputs rows i) := by
      rw [column_eq]
      refine computed_congr fun f hf k hk => ?_
      rw [valueOf, lookup_map_self (q i) (formulas_readsParams hf hk)]
      rfl
    rw [if_neg Bool.false_ne_true, hps, ok_bind, pure_eq_ok]
    refine congrArg Except.ok (List.ext_getElem (by simp [columnRows]) fun k hk hk' => ?_)
    refine Grid.ext_get fun i => ?_
    simp only [List.map_map, Function.comp_def, Grid.get_ofFn, hcolumn]
    rw [List.length_map, List.length_range] at hk
    simp [columnRows, hk]

theorem missingParameter?_eq_none {args : Arguments K} (h : args.Cover s p.params) :
    p.missingParameter? args = none := by
  rw [missingParameter?, Option.map_eq_none_iff, List.find?_eq_none]
  intro k hk
  obtain ⟨a, -, ha, -⟩ := h k hk
  simp [ha]

theorem call_eq_run (hp : p.ByFormulas) {x : Nested K} {g : Grid (p.inputs.length :: s) K}
    (hx : x.toTensor = .ok ⟨p.inputs.length :: s, g⟩) {args : Arguments K}
    (hargs : args.Cover s p.params) (weights : Weights K) :
    p.call x args weights = (do
      let needed := if p.backend = .symbolic && (s.size = 0 || p.outputs.isEmpty) then []
        else p.params
      let rows ← p.run g.rows (← convert args needed) weights
      return .ofGrid (Grid.stack rows)) := by
  simp [call, hx, missingParameter?_eq_none hargs, hp.missingWeights?_eq_none weights]

theorem call_symbolic_eq_columnRows (hbackend : p.backend = .symbolic) (hp : p.ByFormulas)
    {x : Nested K} {g : Grid (p.inputs.length :: s) K}
    (hx : x.toTensor = .ok ⟨p.inputs.length :: s, g⟩) {args : Arguments K}
    (hargs : args.Cover s p.params) {params : Bindings K}
    (hconvert : convert args p.params = .ok params)
    (hshow : params.Show p.params (fun _ => false) (argumentAt (s := s) params))
    (weights : Weights K) :
    p.call x args weights =
      .ok (.ofGrid (Grid.stack (p.columnRows g.rows (argumentAt params)))) := by
  rw [call_eq_run hp hx hargs weights]
  cases hempty : (decide (s.size = 0) || p.outputs.isEmpty) with
  | true =>
    have hrun : p.runSymbolic g.rows [] = .ok (p.columnRows g.rows (argumentAt params)) :=
      runSymbolic_eq_columnRows (by simp [hempty])
    simp [run, hbackend, convert, hrun]
  | false =>
    have hrun : p.runSymbolic g.rows params = .ok (p.columnRows g.rows (argumentAt params)) :=
      runSymbolic_eq_columnRows fun _ => hshow
    simp [run, hbackend, hconvert, hrun]

/-- A program returns the numbers of its columns where every parameter can be repeated. -/
theorem call_eq_columnRows [ExactOrder K] (hp : p.ByFormulas)
    (hflags : sparesFlags (fun _ => false) p.formulas = true) {x : Nested K}
    {g : Grid (p.inputs.length :: s) K} (hx : x.toTensor = .ok ⟨p.inputs.length :: s, g⟩)
    {args : Arguments K} (hargs : args.Cover s p.params) {params : Bindings K}
    (hconvert : convert args p.params = .ok params)
    (hshow : params.Show p.params (fun _ => false) (argumentAt (s := s) params))
    (weights : Weights K) :
    p.call x args weights =
      .ok (.ofGrid (Grid.stack (p.columnRows g.rows (argumentAt params)))) := by
  cases hbackend : p.backend with
  | elementwise =>
    have hlen : p.inputs.length = g.rows.length := by simp [Grid.rows]
    have hrun := runElementwise_eq_columnRows hp hflags hlen hshow weights
    rw [call_eq_run hp hx hargs weights]
    simp [run, hbackend, hconvert, hrun]
  | symbolic => exact call_symbolic_eq_columnRows hbackend hp hx hargs hconvert hshow weights

/-- Whatever one backend compiles both do, and the two programs return the same array wherever the
parameters can be repeated over the shape of an input row. -/
theorem backends_agree [ExactOrder K] {fluxes : List (Declaration K)} {inputs outputs : List String}
    (hlaws : ∀ f ∈ fluxes, f.lawName? = none)
    (hflags : sparesFlags (fun _ => false) (fluxes.flatMap Declaration.formulas) = true)
    {backend : Backend} {r : Program K} (hr : compile backend fluxes inputs outputs = .ok r) :
    ∃ p q, compile .elementwise fluxes inputs outputs = .ok p ∧
      compile .symbolic fluxes inputs outputs = .ok q ∧
      ∀ (s : Shape) (x : Nested K) (g : Grid (inputs.length :: s) K) (args : Arguments K)
        (weights : Weights K), x.toTensor = .ok ⟨inputs.length :: s, g⟩ →
        args.Cover s (orderedUnion (fluxes.map Declaration.params)) →
        ∃ out : Tensor K, out.shape = outputs.length :: s ∧
          p.call x args weights = .ok out ∧ q.call x args weights = .ok out := by
  have hdraft := draft_of_compile hr
  obtain ⟨havailable, houtputs⟩ := r.unavailable?_eq_none
  rw [hdraft] at havailable houtputs
  have hcompiles (b : Backend) : ∃ p : Program K, compile b fluxes inputs outputs = .ok p ∧
      p.toProgramDraft = ⟨b, fluxes, inputs, outputs⟩ :=
    compile_exists havailable houtputs fun _ => hlaws
  obtain ⟨⟨d, hd⟩, hcompile, hp⟩ := hcompiles .elementwise
  obtain ⟨⟨d', hd'⟩, hcompile', hq⟩ := hcompiles .symbolic
  obtain rfl : d = _ := hp
  obtain rfl : d' = _ := hq
  refine ⟨_, _, hcompile, hcompile', fun s x g args weights hx hargs => ?_⟩
  obtain ⟨params, hconvert, hshow⟩ := convert_show hargs
  refine ⟨_, ?_,
    call_eq_columnRows (p := ⟨_, hd⟩) hlaws hflags hx hargs hconvert hshow weights,
    call_eq_columnRows (p := ⟨_, hd'⟩) hlaws hflags hx hargs hconvert hshow weights⟩
  simp [Tensor.ofGrid, columnRows]

def overflowDraft : FluxDraft ExactReal where
  name := "overflow"
  outputs := ["wet", "q"]
  inputs := ["rain"]
  params := ["limit"]
  exprs := [.binary .gt (.var "rain") (.par "limit"),
    .choose (.var "wet") (.binary .sub (.var "rain") (.par "limit"))
      (.binary .mul (.var "wet") (.var "wet"))]
  law := none

theorem overflowDraft_accepted : overflowDraft.fault? = none := by
  decide

def overflow : Declaration ExactReal := .flux ⟨overflowDraft, overflowDraft_accepted⟩

theorem overflow_agrees : ∃ p q, compile .elementwise [overflow] ["rain"] ["q", "wet"] = .ok p ∧
    compile .symbolic [overflow] ["rain"] ["q", "wet"] = .ok q ∧
    ∃ out : Tensor ExactReal, out.shape = [2, 3] ∧
      p.call (.tensor (.ofGrid (Grid.replicate (Scalar.ofInt 2) : Grid [1, 3] ExactReal)))
        [("limit", .tensor (.single Scalar.one))] [] = .ok out ∧
      q.call (.tensor (.ofGrid (Grid.replicate (Scalar.ofInt 2) : Grid [1, 3] ExactReal)))
        [("limit", .tensor (.single Scalar.one))] [] = .ok out := by
  have hlaws : ∀ f ∈ [overflow], f.lawName? = none := List.forall_mem_singleton.2 rfl
  have hflags : sparesFlags (fun _ => false) ([overflow].flatMap Declaration.formulas) = true := by
    rfl
  obtain ⟨r, hr, -⟩ : ∃ r : Program ExactReal,
      compile .elementwise [overflow] ["rain"] ["q", "wet"] = .ok r ∧
        r.toProgramDraft = ⟨.elementwise, [overflow], ["rain"], ["q", "wet"]⟩ :=
    compile_exists rfl (by decide) fun _ => hlaws
  obtain ⟨p, q, hp, hq, hcall⟩ := backends_agree hlaws hflags hr
  refine ⟨p, q, hp, hq, hcall [3] _ _ _ [] rfl ?_⟩
  intro k hk
  obtain rfl : k = "limit" := List.mem_singleton.1 hk
  exact ⟨_, _, rfl, rfl, rfl⟩

end Program

end Catchment
