import Catchment.Proofs.ClosedComponents
import Catchment.Proofs.NestedModels

/-!
# Inferred roles

A flux that is built from assigned formulas infers what it reads. It is accepted if and only if
every key stands for a name of its own and no formula reads a name that is assigned in its place or
later. The inferred inputs and parameters are what the formulas need, no more and no less: their
evaluation finds every name, and the declaration is refused without any one of them.
-/
namespace Catchment

theorem firstOccurrences_eq_eraseDups (names : List String) :
    firstOccurrences names = names.eraseDups := by
  induction names using List.reverseRecOn with
  | nil => rfl
  | append_singleton names v ih =>
    rw [firstOccurrences_concat, List.eraseDups_append, ih, List.removeAll, List.filter_singleton]
    by_cases hv : v ∈ names
    · simp [hv]
    · simp [hv, List.eraseDups_cons]

/-- Names of a later group count where they do not occur before. -/
theorem firstOccurrences_append (names more : List String) :
    firstOccurrences (names ++ more) =
      firstOccurrences names ++ (firstOccurrences more).filter (!names.contains ·) := by
  rw [filter_firstOccurrences]
  simp only [firstOccurrences_eq_eraseDups, List.eraseDups_append]
  rfl

/-- Occurrences are first among groups where they are first within their group. -/
theorem orderedUnion_map_firstOccurrences {α : Type} (names : α → List String) (xs : List α) :
    orderedUnion (xs.map fun x => firstOccurrences (names x)) =
      firstOccurrences (xs.flatMap names) := by
  induction xs with
  | nil => rfl
  | cons x xs ih =>
    rw [orderedUnion, List.flatMap_cons, List.map_cons, List.flatten_cons,
      firstOccurrences_append_left, firstOccurrences_append, firstOccurrences_append]
    exact congrArg (fun rest => firstOccurrences (names x) ++
      rest.filter fun v => !(names x).contains v) ih

namespace Expr

variable {K : Type}

/-- The name of a variable. -/
def varName? : Expr K → Option String
  | var v => some v
  | _ => none

/-- The name of a parameter. -/
def parName? : Expr K → Option String
  | par k => some k
  | _ => none

def nodes : Expr K → Nat
  | var _ | par _ | const _ => 1
  | unary _ a => a.nodes + 1
  | binary _ a b => a.nodes + b.nodes + 1
  | choose c a b => c.nodes + a.nodes + b.nodes + 1

/-- The formulas on a stack and all below them, depth first from the left: the one on top is taken
and its children are put in its place. -/
def walk : List (Expr K) → List (Expr K)
  | [] => []
  | e :: stack => e :: walk (e.children ++ stack)
termination_by stack => (stack.map nodes).sum
decreasing_by cases e <;> simp [children, nodes] <;> omega

theorem reads_eq (e : Expr K) :
    e.reads = e.varName?.toList ++ e.children.flatMap reads := by
  cases e <;> simp [reads, varName?, children]

theorem readsParams_eq (e : Expr K) :
    e.readsParams = e.parName?.toList ++ e.children.flatMap readsParams := by
  cases e <;> simp [readsParams, parName?, children]

/-- The names of a kind that a traversal comes by are those that were collected from each tree. -/
theorem filterMap_walk {name : Expr K → Option String} {names : Expr K → List String}
    (h : ∀ e, names e = (name e).toList ++ e.children.flatMap names) (stack : List (Expr K)) :
    (walk stack).filterMap name = stack.flatMap names := by
  induction stack using walk.induct with
  | case1 => simp [walk]
  | case2 e stack ih =>
    rw [walk, List.flatMap_cons, h e, List.append_assoc, ← List.flatMap_append, ← ih]
    cases hname : name e <;> simp [hname]

theorem filterMap_walks {name : Expr K → Option String} {names : Expr K → List String}
    (h : ∀ e, names e = (name e).toList ++ e.children.flatMap names) (es : List (Expr K)) :
    (es.flatMap fun e => walk [e]).filterMap name = es.flatMap names := by
  rw [List.filterMap_flatMap]
  simp [filterMap_walk h]

end Expr

variable {K : Type} [Scalar K]

omit [Scalar K] in
theorem undeclaredRead?_eq_none_iff {owner subject : String} {vars params : List String}
    {e : Expr K} : undeclaredRead? owner subject vars params e = none ↔
      e.reads ⊆ vars ∧ e.readsParams ⊆ params := by
  refine ⟨undeclaredRead?_eq_none, fun h => ?_⟩
  have hvars : e.varNames.find? (!vars.contains ·) = none :=
    List.find?_eq_none.2 fun v hv => by simpa using h.1 (Expr.mem_varNames.1 hv)
  rw [undeclaredRead?, hvars, Option.map_eq_none_iff]
  exact List.find?_eq_none.2 fun k hk => by simpa using h.2 (Expr.mem_parNames.1 hk)

namespace FluxDraft

omit [Scalar K] in
theorem readFault?_eq_none_iff {owner : String} {params vars : List String}
    {fs : List (String × Expr K)} : readFault? owner params vars fs = none ↔
      ReadsKnown vars fs ∧ ∀ f ∈ fs, f.2.readsParams ⊆ params := by
  refine ⟨fun h => ⟨readsKnown_of_readFault? h, readsParams_of_readFault? h⟩, ?_⟩
  induction fs generalizing vars with
  | nil => exact fun _ => rfl
  | cons f fs ih =>
    rintro ⟨⟨hreads, hrest⟩, hparams⟩
    obtain ⟨hf, hfs⟩ := List.forall_mem_cons.1 hparams
    rw [readFault?, undeclaredRead?_eq_none_iff.2 ⟨hreads, hf⟩]
    exact ih ⟨hrest, hfs⟩

omit [Scalar K] in
/-- A draft by formulas is without fault if its names are distinct and its formulas, one for each
output, read nothing else. -/
theorem fault?_eq_none_iff {d : FluxDraft K} (hlaw : d.law = none) :
    d.fault? = none ↔ d.outputs ≠ [] ∧ d.outputs.Nodup ∧ d.inputs.Nodup ∧ d.params.Nodup ∧
      (∀ v ∈ d.inputs, v ∉ d.outputs) ∧ d.exprs.length = d.outputs.length ∧
      ReadsKnown d.inputs (d.outputs.zip d.exprs) ∧ ∀ e ∈ d.exprs, e.readsParams ⊆ d.params := by
  have htwice (what : String) (names : List String) :
      declaredTwice? d.owner what names = none ↔ names.Nodup := by
    rw [declaredTwice?, Option.map_eq_none_iff, repeated?_eq_none]
  have hboth : bothInputAndOutput? d.owner d.inputs d.outputs = none ↔
      ∀ v ∈ d.inputs, v ∉ d.outputs := by
    unfold bothInputAndOutput?
    split
    · rename_i hfilter
      simpa [List.filter_eq_nil_iff] using hfilter
    · rename_i hfilter
      simpa [List.filter_eq_nil_iff] using hfilter
  have hempty : d.outputs.length = d.exprs.length → (d.exprs = [] ↔ d.outputs = []) := fun hlen => by
    rw [← List.length_eq_zero_iff, ← List.length_eq_zero_iff, hlen]
  rw [fault?, List.findSome?_eq_none_iff]
  simp only [List.mem_cons, List.not_mem_nil, or_false, forall_eq_or_imp, forall_eq, id, htwice,
    hboth, hlaw, Option.isNone_none, Bool.true_and, if_true, ite_eq_right_iff, reduceCtorEq,
    imp_false, List.isEmpty_iff, Bool.true_beq, bne_iff_ne, ne_eq, not_not, readFault?_eq_none_iff]
  constructor
  · rintro ⟨hne, houtputs, hinputs, hparams, hoverlap, -, hcount, hreads, hreadsParams⟩
    refine ⟨hne, houtputs, hinputs, hparams, hoverlap, hcount, hreads, fun e he => ?_⟩
    obtain ⟨i, hi, rfl⟩ := List.mem_iff_getElem.1 he
    have hmem : (d.outputs[i], d.exprs[i]) ∈ d.outputs.zip d.exprs :=
      List.mem_iff_getElem.2 ⟨i, by simp [hcount, hcount ▸ hi], by simp⟩
    exact hreadsParams _ hmem
  · rintro ⟨hne, houtputs, hinputs, hparams, hoverlap, hcount, hreads, hreadsParams⟩
    exact ⟨hne, houtputs, hinputs, hparams, hoverlap, fun h => hne ((hempty hcount.symm).1 h),
      hcount, hreads, fun f hf => hreadsParams _ (List.of_mem_zip (a := f.1) (b := f.2) hf).2⟩

end FluxDraft

omit [Scalar K] in
/-- What is known to a formula are the declared names and those of the formulas before it. -/
theorem readsKnown_iff {vars names : List String} {exprs : List (Expr K)}
    (hlen : exprs.length = names.length) : ReadsKnown vars (names.zip exprs) ↔
      ∀ i e, exprs[i]? = some e → ∀ v ∈ e.reads, v ∈ vars ∨ v ∈ names.take i := by
  induction names generalizing vars exprs with
  | nil =>
    obtain rfl := List.length_eq_zero_iff.1 hlen
    exact ⟨fun _ i e he => by simp at he, fun _ => trivial⟩
  | cons name names ih =>
    cases exprs with
    | nil => simp at hlen
    | cons e exprs =>
      rw [List.zip_cons_cons, ReadsKnown, ih (by simpa using hlen)]
      constructor
      · rintro ⟨hreads, hrest⟩ i e' he' v hv
        cases i with
        | zero =>
          obtain rfl : e = e' := by simpa using he'
          exact .inl (hreads hv)
        | succ i =>
          rcases hrest i e' (by simpa using he') v hv with h | h
          · rcases List.mem_cons.1 h with rfl | h
            · exact .inr (by simp)
            · exact .inl h
          · exact .inr (by simp [h])
      · refine fun h => ⟨fun v hv => by simpa using h 0 e (by simp) v hv, fun i e' he' v hv => ?_⟩
        rcases h (i + 1) e' (by simpa using he') v hv with h | h
        · exact .inl (List.mem_cons_of_mem name h)
        · rw [List.take_succ_cons, List.mem_cons] at h
          rcases h with rfl | h
          · exact .inl List.mem_cons_self
          · exact .inr h

/-- A name, or a leaf of that name. -/
def Label.Names (l : Label K) (name : String) : Prop :=
  l = .name name ∨ l = .leaf (.var name) ∨ l = .leaf (.par name)

theorem Label.resolve_eq_ok {l : Label K} {name : String} :
    l.resolve = .ok name ↔ l.Names name := by
  cases l with
  | name s => simp [resolve, Names]
  | leaf e => cases e <;> simp [resolve, Names]

namespace Flux

/-- The assignments that are left where later values replace earlier ones under the same key. -/
def assignments (pairs : List (Label K × Operand K)) : List (Label K × Operand K) :=
  pairs.foldl (fun table p => assign table p.1 p.2) []

theorem assign_ne_nil (table : List (Label K × Operand K)) (key : Label K) (value : Operand K) :
    assign table key value ≠ [] := by
  cases table with
  | nil => simp [assign]
  | cons p table =>
    rw [assign]
    split <;> simp

theorem assignments_eq_nil_iff {pairs : List (Label K × Operand K)} :
    assignments pairs = [] ↔ pairs = [] := by
  cases pairs using List.reverseRecOn with
  | nil => exact iff_of_true rfl rfl
  | append_singleton pairs p =>
    rw [assignments, List.foldl_append]
    exact iff_of_false (assign_ne_nil _ _ _) (by simp)

def inferred (outputs : List String) (exprs : List (Expr K)) (name : Option String) :
    FluxDraft K :=
  let inputs := (orderedUnion (exprs.map Expr.varNames)).filter (!outputs.contains ·)
  let params := orderedUnion (exprs.map Expr.parNames)
  let name := name.getD (FluxDraft.defaultName outputs inputs params exprs none)
  { name, outputs, inputs, params, exprs, law := none }

theorem mem_inputs_inferred {outputs : List String} {exprs : List (Expr K)}
    {name : Option String} {v : String} :
    v ∈ (inferred outputs exprs name).inputs ↔ (∃ e ∈ exprs, v ∈ e.reads) ∧ v ∉ outputs := by
  simp [inferred, List.mem_filter]

theorem mem_params_inferred {outputs : List String} {exprs : List (Expr K)}
    {name : Option String} {k : String} :
    k ∈ (inferred outputs exprs name).params ↔ ∃ e ∈ exprs, k ∈ e.readsParams := by
  simp [inferred]

theorem fault?_inferred {outputs : List String} {exprs : List (Expr K)} {name : Option String}
    (hlen : exprs.length = outputs.length) : (inferred outputs exprs name).fault? = none ↔
      outputs ≠ [] ∧ outputs.Nodup ∧
        ∀ i e, exprs[i]? = some e → ∀ v ∈ e.reads, v ∉ outputs.drop i := by
  have hscope (hnodup : outputs.Nodup) :
      ReadsKnown (inferred outputs exprs name).inputs (outputs.zip exprs) ↔
        ∀ i e, exprs[i]? = some e → ∀ v ∈ e.reads, v ∉ outputs.drop i := by
    rw [readsKnown_iff hlen]
    refine forall₂_congr fun i e => forall_congr' fun he => forall₂_congr fun v hv => ?_
    have hread : ∃ e ∈ exprs, v ∈ e.reads := ⟨e, List.mem_of_getElem? he, hv⟩
    rw [mem_inputs_inferred, and_iff_right hread]
    have hsplit : v ∈ outputs ↔ v ∈ outputs.take i ∨ v ∈ outputs.drop i := by
      rw [← List.mem_append, List.take_append_drop]
    have honce : v ∈ outputs.take i → v ∉ outputs.drop i :=
      fun h => List.disjoint_take_drop hnodup le_rfl h
    tauto
  rw [FluxDraft.fault?_eq_none_iff rfl]
  constructor
  · rintro ⟨hne, hnodup, -, -, -, -, hreads, -⟩
    exact ⟨hne, hnodup, (hscope hnodup).1 hreads⟩
  · rintro ⟨hne, hnodup, hreads⟩
    refine ⟨hne, hnodup, (nodup_orderedUnion _).filter _, nodup_orderedUnion _, fun v hv => ?_,
      hlen, (hscope hnodup).2 hreads, fun e he k hk => mem_params_inferred.2 ⟨e, he, hk⟩⟩
    exact (mem_inputs_inferred.1 hv).2

omit [Scalar K] in
theorem ofDraft_eq_ok {d : FluxDraft K} {f : Flux K} : ofDraft d = .ok f ↔ f.toFluxDraft = d := by
  unfold ofDraft
  split
  · rename_i h
    rw [Except.ok.injEq]
    constructor
    · rintro rfl
      rfl
    · rintro rfl
      rfl
  · rename_i cause h
    simp only [misconfigured, reduceCtorEq, false_iff]
    rintro rfl
    exact Option.some_ne_none cause (h.symm.trans f.accepted)

/-- The formulas that values stand for, and a name for each of them. -/
theorem ofAssignments_eq_ok {pairs : List (Label K × Operand K)} {exprs : List (Expr K)}
    (hexprs : (assignments pairs).mapM (fun p => p.2.toExpr) = .ok exprs) {name : Option String}
    {f : Flux K} : ofAssignments pairs name = .ok f ↔
      List.Forall₂ (fun p output => p.1.Names output) (assignments pairs) f.outputs ∧
        f.toFluxDraft = inferred f.outputs exprs name := by
  have hnames (outputs : List String) :
      (assignments pairs).mapM (fun p : Label K × Operand K => p.1.resolve) = .ok outputs ↔
        List.Forall₂ (fun p output => p.1.Names output) (assignments pairs) outputs := by
    rw [mapM_eq_ok]
    simp only [Label.resolve_eq_ok]
  have hbuild : ofAssignments pairs name = (do
      let outputs ← (assignments pairs).mapM fun p : Label K × Operand K => p.1.resolve
      ofDraft (inferred outputs exprs name)) := by
    show (do
      let outputs ← (assignments pairs).mapM fun p : Label K × Operand K => p.1.resolve
      let exprs ← (assignments pairs).mapM fun p : Label K × Operand K => p.2.toExpr
      ofDraft (inferred outputs exprs name)) = _
    simp only [hexprs, ok_bind]
  rw [hbuild, bind_eq_ok]
  simp only [hnames, ofDraft_eq_ok]
  constructor
  · rintro ⟨outputs, houtputs, hf⟩
    obtain rfl : f.outputs = outputs := by rw [hf]; rfl
    exact ⟨houtputs, hf⟩
  · rintro ⟨houtputs, hf⟩
    exact ⟨_, houtputs, hf⟩

/-- The flux of other inputs and parameters with the same formulas. -/
def redeclare (f : Flux K) (inputs params : List String) (name : Option String) :
    Except Fault (Flux K) :=
  declare (f.outputs.map .name) (inputs.map .name) (params.map .name) (f.exprs.map .expr) none name

/-- Evaluation with a value for every input and every parameter misses no name: elementwise it
fails over values that it finds, and symbolically nothing depends on what stands for a missing
name. -/
structure FindsNames (f : Flux K) : Prop where
  elementwise {s : Shape} {env params : Bindings K} {weights : Weights K}
    (inputs : ∀ v ∈ f.inputs, env.lookup v ≠ none)
    (parameters : ∀ k ∈ f.params, params.lookup k ≠ none) :
    FailsWith Fault.OfFoundValue ((Declaration.flux f).bind s params weights env)
  symbolic {env params : List (String × K)} (inputs : ∀ v ∈ f.inputs, env.lookup v ≠ none)
    (parameters : ∀ k ∈ f.params, params.lookup k ≠ none) (x y x' y' : K) :
    (Declaration.flux f).formulas.foldl (fun env f => (f.1, f.2.symbolic (Program.valueOf x env)
      (Program.valueOf y params)) :: env) env =
    (Declaration.flux f).formulas.foldl (fun env f => (f.1, f.2.symbolic (Program.valueOf x' env)
      (Program.valueOf y' params)) :: env) env

/-- The declaration is accepted with its inputs and parameters and refused without any of them. -/
structure NeedsRoles (f : Flux K) : Prop where
  accepted : f.redeclare f.inputs f.params (some f.name) = .ok f
  inputs {v : String} (read : v ∈ f.inputs) (name : Option String) :
    ∃ cause, f.redeclare (f.inputs.erase v) f.params name = misconfigured cause
  params {k : String} (read : k ∈ f.params) (name : Option String) :
    ∃ cause, f.redeclare f.inputs (f.params.erase k) name = misconfigured cause

theorem findsNames {f : Flux K} (hlaw : f.law = none) : f.FindsNames := by
  obtain ⟨hlen, hread⟩ := f.wellFormed.2.2.1 hlaw
  obtain ⟨hreads, hreadsParams⟩ := FluxDraft.readFault?_eq_none_iff.1 hread
  constructor
  · intro s env params weights hinputs hparams
    rw [Declaration.bind, hlaw]
    exact Declaration.failsWith_bindFormulas (fun _ h => h) hreads
      (fun v hv hnone => absurd hnone (hinputs v hv))
      fun g hg k hk hnone => absurd hnone (hparams k (hreadsParams g hg hk))
  · intro env params hinputs hparams
    exact foldl_symbolic_eq hreads hinputs fun g hg k hk => hparams k (hreadsParams g hg hk)

theorem redeclare_eq (f : Flux K) (inputs params : List String) (name : Option String) :
    f.redeclare inputs params name = ofDraft {
      name := name.getD (FluxDraft.defaultName f.outputs inputs params f.exprs none)
      outputs := f.outputs, inputs, params, exprs := f.exprs, law := none } := by
  have hnames (names : List String) :
      (names.map Label.name).mapM (Label.resolve (K := K)) = .ok names :=
    map_mapM_eq_ok fun _ _ => rfl
  have hexprs : (f.exprs.map Operand.expr).mapM Operand.toExpr = .ok f.exprs :=
    map_mapM_eq_ok fun _ _ => rfl
  simp only [redeclare, declare, hnames, hexprs, ok_bind]

omit [Scalar K] in
theorem ofDraft_eq_misconfigured {d : FluxDraft K} (h : d.fault? ≠ none) :
    ∃ cause, ofDraft d = misconfigured cause := by
  unfold ofDraft
  split
  · rename_i hnone
    exact absurd hnone h
  · exact ⟨_, rfl⟩

theorem needsRoles {f : Flux K} {exprs : List (Expr K)} {name : Option String}
    (h : f.toFluxDraft = inferred f.outputs exprs name) : f.NeedsRoles := by
  have hexprs : f.exprs = exprs := congrArg FluxDraft.exprs h
  have hinputs : f.inputs = (inferred f.outputs exprs name).inputs := congrArg FluxDraft.inputs h
  have hparams : f.params = (inferred f.outputs exprs name).params := congrArg FluxDraft.params h
  have hlaw : f.law = none := congrArg FluxDraft.law h
  obtain ⟨-, -, hinputsOnce, hparamsOnce, -, hlen, -⟩ :=
    (FluxDraft.fault?_eq_none_iff hlaw).1 f.accepted
  refine ⟨?_, fun {v} hv name' => ?_, fun {k} hk name' => ?_⟩
  · rw [redeclare_eq, ofDraft_eq_ok, Option.getD_some, ← hlaw]
  · obtain ⟨⟨e, he, hread⟩, hnew⟩ := mem_inputs_inferred.1 (hinputs ▸ hv)
    rw [redeclare_eq]
    refine ofDraft_eq_misconfigured fun hnone => ?_
    obtain ⟨-, -, -, -, -, -, hreads, -⟩ := (FluxDraft.fault?_eq_none_iff rfl).1 hnone
    obtain ⟨i, hi⟩ := List.mem_iff_getElem?.1 (hexprs ▸ he)
    rcases (readsKnown_iff hlen).1 hreads i e hi v hread with hmem | hmem
    · exact (hinputsOnce.mem_erase_iff.1 hmem).1 rfl
    · exact hnew (List.mem_of_mem_take hmem)
  · obtain ⟨e, he, hread⟩ := mem_params_inferred.1 (hparams ▸ hk)
    rw [redeclare_eq]
    refine ofDraft_eq_misconfigured fun hnone => ?_
    obtain ⟨-, -, -, -, -, -, -, hreadsParams⟩ := (FluxDraft.fault?_eq_none_iff rfl).1 hnone
    exact (hparamsOnce.mem_erase_iff.1 (hreadsParams e (hexprs ▸ he) hread)).1 rfl

/-- Assigned formulas make a flux if and only if there are any, their keys stand for distinct
names, and none reads a name that is assigned in its place or later. Then the inputs are the
variables read that are not assigned and the parameters those read, by first occurrence; they
suffice to evaluate the flux, and none can be left out. -/
theorem ofAssignments_infers_roles {pairs : List (Label K × Operand K)} {exprs : List (Expr K)}
    (hexprs : (assignments pairs).mapM (fun p => p.2.toExpr) = .ok exprs)
    (name : Option String) :
    ((∃ f, ofAssignments pairs name = .ok f) ↔ pairs ≠ [] ∧ ∃ outputs : List String,
      List.Forall₂ (fun p output => p.1.Names output) (assignments pairs) outputs ∧
      outputs.Nodup ∧ ∀ i e, exprs[i]? = some e → ∀ v ∈ e.reads, v ∉ outputs.drop i) ∧
    ∀ f, ofAssignments pairs name = .ok f →
      List.Forall₂ (fun p output => p.1.Names output) (assignments pairs) f.outputs ∧
      f.exprs = exprs ∧ f.law = none ∧
      f.inputs = (((exprs.flatMap fun e => Expr.walk [e]).filterMap Expr.varName?).filter
        (!f.outputs.contains ·)).eraseDups ∧
      f.params = ((exprs.flatMap fun e => Expr.walk [e]).filterMap Expr.parName?).eraseDups ∧
      f.FindsNames ∧ f.NeedsRoles := by
  have hcount {outputs : List String}
      (houtputs : List.Forall₂ (fun p output => p.1.Names output) (assignments pairs) outputs) :
      exprs.length = outputs.length :=
    (mapM_eq_ok.1 hexprs).length_eq.symm.trans houtputs.length_eq
  have hempty {outputs : List String}
      (houtputs : List.Forall₂ (fun p output => p.1.Names output) (assignments pairs) outputs) :
      outputs = [] ↔ pairs = [] := by
    rw [← assignments_eq_nil_iff, ← List.length_eq_zero_iff, ← houtputs.length_eq,
      List.length_eq_zero_iff]
  refine ⟨⟨?_, ?_⟩, fun f hf => ?_⟩
  · rintro ⟨f, hf⟩
    obtain ⟨houtputs, hdraft⟩ := (ofAssignments_eq_ok hexprs).1 hf
    have haccepted : (inferred f.outputs exprs name).fault? = none := hdraft ▸ f.accepted
    obtain ⟨hne, hnodup, hreads⟩ := (fault?_inferred (hcount houtputs)).1 haccepted
    exact ⟨fun hnil => hne ((hempty houtputs).2 hnil), f.outputs, houtputs, hnodup, hreads⟩
  · rintro ⟨hne, outputs, houtputs, hnodup, hreads⟩
    have haccepted : (inferred outputs exprs name).fault? = none :=
      (fault?_inferred (hcount houtputs)).2
        ⟨fun hnil => hne ((hempty houtputs).1 hnil), hnodup, hreads⟩
    exact ⟨⟨inferred outputs exprs name, haccepted⟩,
      (ofAssignments_eq_ok hexprs).2 ⟨houtputs, rfl⟩⟩
  · obtain ⟨houtputs, hdraft⟩ := (ofAssignments_eq_ok hexprs).1 hf
    have hlaw : f.law = none := congrArg FluxDraft.law hdraft
    refine ⟨houtputs, congrArg FluxDraft.exprs hdraft, hlaw, ?_, ?_, findsNames hlaw,
      needsRoles hdraft⟩
    · refine (congrArg FluxDraft.inputs hdraft).trans ?_
      rw [Expr.filterMap_walks Expr.reads_eq, ← firstOccurrences_eq_eraseDups,
        ← filter_firstOccurrences, ← orderedUnion_map_firstOccurrences]
      rfl
    · refine (congrArg FluxDraft.params hdraft).trans ?_
      rw [Expr.filterMap_walks Expr.readsParams_eq, ← firstOccurrences_eq_eraseDups,
        ← orderedUnion_map_firstOccurrences]
      rfl

def limited : List (Label Float × Operand Float) :=
  [(.leaf (.var "evap"), .expr (.binary .min (.var "pet") (.var "S"))),
    (.name "unmet", .expr (.binary .mul (.par "k") (.binary .sub (.var "pet") (.var "evap"))))]

theorem limited_roles : ∃ f, ofAssignments limited none = .ok f ∧
    f.outputs = ["evap", "unmet"] ∧ f.inputs = ["pet", "S"] ∧ f.params = ["k"] ∧
    ∃ cause, f.redeclare ["pet"] f.params none = misconfigured cause := by
  have hexprs : (assignments limited).mapM (fun p => p.2.toExpr) = .ok [
      .binary .min (.var "pet") (.var "S"),
      .binary .mul (.par "k") (.binary .sub (.var "pet") (.var "evap"))] := rfl
  have hmain := ofAssignments_infers_roles hexprs none
  obtain ⟨f, hf⟩ := hmain.1.2 ⟨by simp [limited], ["evap", "unmet"],
    .cons (.inr (.inl rfl)) (.cons (.inl rfl) .nil), by decide, fun i e he => by
      rcases i with _ | _ | i <;> simp at he <;> subst he <;> simp [Expr.reads]⟩
  obtain ⟨houtputs, -, -, hinputs, hparams, -, hneeds⟩ := hmain.2 f hf
  have houtputs : f.outputs = ["evap", "unmet"] := by
    simpa [assignments, limited, assign, sameKey, Label.Names, List.forall₂_cons_left_iff]
      using houtputs
  have hinputs : f.inputs = ["pet", "S"] := by
    simpa [houtputs, Expr.walk, Expr.children, Expr.varName?, List.filterMap_cons,
      List.eraseDups_cons] using hinputs
  have hparams : f.params = ["k"] := by
    simpa [Expr.walk, Expr.children, Expr.parName?, List.filterMap_cons,
      List.eraseDups_cons] using hparams
  refine ⟨f, hf, houtputs, hinputs, hparams, ?_⟩
  simpa [hinputs] using hneeds.inputs (v := "S") (by simp [hinputs]) none

end Flux

end Catchment
