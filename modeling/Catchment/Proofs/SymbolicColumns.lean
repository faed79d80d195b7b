import Catchment.Proofs.CellwisePrograms
import Catchment.Proofs.ScheduledDeclarations

/-!
# Symbolic columns

A program that is compiled symbolically computes its formulas one after the other in the column of
every index. In a scheduled list each name gets the number that its formula has among all numbers.
-/
namespace Catchment

variable {K : Type}

namespace Program

variable {r : Program K} {s : Shape} {params : Bindings K} {cells : Index s → Scope K}
  {args : Index s → String → K}

theorem formulas_readsParams {f : String × Expr K} (hf : f ∈ r.formulas)
    {k : String} (hk : k ∈ f.2.readsParams) : k ∈ r.params := by
  obtain ⟨g, hg, hf⟩ := List.mem_flatMap.1 hf
  exact mem_orderedUnion.2 ⟨_, List.mem_map_of_mem hg, g.readsParams_subset hf k hk⟩

theorem symbolicParams_eq (ha : params.Hold cells)
    (hargs : ∀ k ∈ r.params, ∀ i, cells i k = some (.double (args i k))) (i₀ : Index s) :
    (r.params.mapM fun k => do
      let v ← Values.orFault .unknownName (params.lookup k)
      return (k, ← Values.orFault .value (v.tensor.repeat? s))) =
      .ok (r.params.map fun k => (k, Grid.ofFn fun i => args i k)) := by
  rw [mapM_eq_ok_map]
  intro k hk
  have hlookup := ha k
  cases hv : params.lookup k with
  | none =>
    rw [hv] at hlookup
    exact nomatch (hlookup i₀).symm.trans (hargs k hk i₀)
  | some v =>
    rw [hv] at hlookup
    obtain ⟨c, hc, hcells⟩ := hlookup
    have hvalue (i : Index s) : (c i).value = args i k := by
      have hi := (hcells i).symm.trans (hargs k hk i)
      rw [Option.some.inj hi]
      rfl
    simp [hc.repeat?, hvalue]

end Program

variable [Scalar K] {p q x y z : String → K} {fs gs : List (String × Expr K)}

theorem Expr.symbolic_congr {e : Expr K} (hx : ∀ v ∈ e.reads, x v = y v)
    (hp : ∀ k ∈ e.readsParams, p k = q k) : e.symbolic x p = e.symbolic y q := by
  have hreads := readsOnly hx hp
  clear hx hp
  induction hreads with
  | var hv => exact hv
  | par hk => exact hk
  | const value => rfl
  | unary op _ iha => rw [symbolic, symbolic, iha]
  | binary op _ _ iha ihb => rw [symbolic, symbolic, iha, ihb]
  | choose _ _ _ ihc iha ihb => rw [symbolic, symbolic, ihc, iha, ihb]

def computed (p : String → K) : List (String × Expr K) → (String → K) → String → K
  | [], x => x
  | f :: rest, x => computed p rest (Function.update x f.1 (f.2.symbolic x p))

theorem computed_append : computed p (fs ++ gs) x = computed p gs (computed p fs x) := by
  induction fs generalizing x with
  | nil => rfl
  | cons f fs ih => exact ih

theorem computed_of_notMem {v : String} (hv : v ∉ fs.map Prod.fst) : computed p fs x v = x v := by
  induction fs generalizing x with
  | nil => rfl
  | cons f fs ih =>
    rw [List.map_cons, List.mem_cons, not_or] at hv
    rw [computed, ih hv.2, Function.update_of_ne hv.1]

theorem computed_congr (hp : ∀ f ∈ fs, ∀ k ∈ f.2.readsParams, p k = q k) :
    computed p fs x = computed q fs x := by
  induction fs generalizing x with
  | nil => rfl
  | cons f fs ih =>
    rw [computed, computed, Expr.symbolic_congr (fun _ _ => rfl) (hp f List.mem_cons_self)]
    exact ih fun g hg => hp g (List.mem_cons_of_mem f hg)

namespace Scheduled

/-- Every name gets the number that its formula has among the computed numbers. -/
theorem computed_value (h : Scheduled fs) (x : String → K) :
    ∀ f ∈ fs, computed p fs x f.1 = f.2.symbolic (computed p fs x) p := by
  induction fs generalizing x with
  | nil => exact fun f hf => nomatch hf
  | cons f fs ih =>
    intro g hg
    rcases List.mem_cons.1 hg with rfl | hg
    · rw [computed, computed_of_notMem h.head_notMem, Function.update_self]
      exact Expr.symbolic_congr (fun v hv => (computed_of_notMem (h.reads_notMem hv)).symm)
        fun _ _ => rfl
    · exact ih h.tail _ g hg

/-- Numbers of which each is that of its formula are the computed ones. -/
theorem computed_eq (h : Scheduled fs)
    (hreads : ∀ f ∈ fs, ∀ v ∈ f.2.reads, x v = z v ∨ v ∈ fs.map Prod.fst)
    (hz : ∀ f ∈ fs, f.2.symbolic z p = z f.1) :
    ∀ v, x v = z v ∨ v ∈ fs.map Prod.fst → computed p fs x v = z v := by
  induction fs generalizing x with
  | nil => exact fun v hv => hv.resolve_right List.not_mem_nil
  | cons f fs ih =>
    have hmem : f ∈ f :: fs := List.mem_cons_self
    have hf : f.2.symbolic x p = z f.1 := by
      rw [← hz f hmem]
      exact Expr.symbolic_congr
        (fun v hv => (hreads f hmem v hv).resolve_right (h.reads_notMem hv)) fun _ _ => rfl
    have hnext (v : String) (hv : x v = z v ∨ v ∈ (f :: fs).map Prod.fst) :
        Function.update x f.1 (f.2.symbolic x p) v = z v ∨ v ∈ fs.map Prod.fst := by
      by_cases hvf : v = f.1
      · subst hvf
        exact .inl ((Function.update_self ..).trans hf)
      · rw [Function.update_of_ne hvf]
        exact hv.imp_right fun hv => List.mem_of_ne_of_mem hvf hv
    exact fun v hv => ih h.tail
      (fun g hg v hv => hnext v (hreads g (List.mem_cons_of_mem f hg) v hv))
      (fun g hg => hz g (List.mem_cons_of_mem f hg)) v (hnext v hv)

end Scheduled

theorem Program.valueOf_cons {α : Type} (missing : α) (env : List (String × α)) (name : String)
    (c : α) : valueOf missing ((name, c) :: env) =
      Function.update (valueOf missing env) name c := by
  funext v
  by_cases hv : v = name
  · subst hv
    rw [Function.update_self, valueOf, List.lookup_cons_self, Option.getD_some]
  · rw [Function.update_of_ne hv, valueOf, List.lookup_cons, beq_eq_false_iff_ne.2 hv]
    rfl

def numbersOf (names : List String) (xs : List K) : String → K :=
  Program.valueOf Scalar.nan (names.zip xs)

theorem numbersOf_map {names : List String} {v : String} (hv : v ∈ names) :
    numbersOf names (names.map z) v = z v := by
  rw [numbersOf, Program.valueOf, ← List.map_prod_left_eq_zip, lookup_map_self z hv]
  rfl

namespace Program

variable {r : Program K} {s : Shape} {params : Bindings K} {cells : Index s → Scope K}
  {args : Index s → String → K}

theorem column_eq (env params : List (String × K)) :
    valueOf Scalar.nan (r.column env params) =
      computed (valueOf Scalar.nan params) r.formulas (valueOf Scalar.nan env) := by
  unfold column formulas
  generalize r.fluxes.flatMap Declaration.formulas = fs
  induction fs generalizing env with
  | nil => rfl
  | cons f fs ih =>
    rw [List.foldl_cons, computed, ← valueOf_cons]
    exact ih _

theorem valueOf_column (hn : r.inputs.Nodup) (xs : List K) (p : String → K) :
    valueOf Scalar.nan (r.column (r.inputs.zip xs).reverse (r.params.map fun k => (k, p k))) =
      computed p r.formulas (numbersOf r.inputs xs) := by
  have hinputs : valueOf Scalar.nan (r.inputs.zip xs).reverse = numbersOf r.inputs xs := by
    funext v
    rw [numbersOf, valueOf, valueOf, lookup_reverse (nodup_keys_zip hn _)]
  rw [column_eq, hinputs]
  refine computed_congr fun f hf k hk => ?_
  rw [valueOf, lookup_map_self p (formulas_readsParams hf hk)]
  rfl

/-- A symbolic program computes its formulas in the column of every index. -/
theorem runSymbolic_exists (hn : r.inputs.Nodup) (ha : params.Hold cells)
    (hargs : ∀ k ∈ r.params, ∀ i, cells i k = some (.double (args i k)))
    (rows : List (Grid s K)) :
    ∃ outs, r.runSymbolic rows params = .ok outs ∧ outs.length = r.outputs.length ∧
      ∀ i, outs.map (·.get i) = r.outputs.map
        (computed (args i) r.formulas (numbersOf r.inputs (rows.map (·.get i)))) := by
  unfold runSymbolic
  split
  · rename_i hempty
    refine ⟨_, rfl, List.length_map _, fun i => ?_⟩
    rw [Bool.or_eq_true, decide_eq_true_iff, List.isEmpty_iff] at hempty
    rcases hempty with hempty | hempty
    · exact absurd i.rank.isLt (by omega)
    · rw [hempty]
      rfl
  · rename_i hsome
    have hsize : 0 < s.size := by
      refine Nat.pos_of_ne_zero fun hzero => hsome ?_
      rw [hzero]
      rfl
    rw [symbolicParams_eq ha hargs (Index.unrank ⟨0, hsize⟩)]
    refine ⟨_, rfl, by simp, fun i => ?_⟩
    have hzip : r.inputs.zip (rows.map (·.get i)) =
        (r.inputs.zip rows).map fun g => (g.1, g.2.get i) := List.zip_map_right ..
    simp only [List.map_map, Function.comp_def, Grid.get_ofFn, ← hzip, valueOf_column hn]
    refine List.ext_getElem (by simp) fun k hk hk' => ?_
    rw [List.length_map] at hk'
    simp [hk']

end Program

end Catchment
