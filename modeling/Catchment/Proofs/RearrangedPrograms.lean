import Catchment.Proofs.SymbolicColumns

/-!
# Rearranged programs

Formulas over whole rows are evaluated one after the other like formulas at one position: each of
two schedules of the same formulas finds the values that satisfy all of them. A program whose
inputs, outputs and first declarations stand in another order therefore returns the same rows by
name. No shape is excluded, so there need not be any position.
-/
namespace Catchment

variable {K : Type} {s : Shape}

def Bindings.Same (env env' : Bindings K) : Prop := ∀ v, env'.lookup v = env.lookup v

theorem Bindings.Same.cons {env env' : Bindings K} (h : env.Same env') (name : String)
    (x : Values K) : Same ((name, x) :: env) ((name, x) :: env') := by
  intro v
  rw [List.lookup_cons, List.lookup_cons, h v]

theorem Bindings.Same.hold {env env' : Bindings K} (h : env.Same env')
    {cells : Index s → Scope K} (he : env.Hold cells) : env'.Hold cells := by
  intro v
  rw [h v]
  exact he v

theorem lookup_cons_of_ne {α : Type} {v w : String} (h : v ≠ w) (x : α)
    (env : List (String × α)) : ((w, x) :: env).lookup v = env.lookup v := by
  rw [List.lookup_cons, beq_eq_false_iff_ne.2 h]

variable [Scalar K] {params params' env env' τ : Bindings K} {fs gs : List (String × Expr K)}

/-- Only the variables that an expression reads matter to it. -/
theorem Expr.eval_congr {e : Expr K} (hparams : params.Same params')
    (h : ∀ v ∈ e.reads, env'.lookup v = env.lookup v) :
    e.eval env' params' = e.eval env params := by
  have hreads := readsOnly h fun k _ => hparams k
  clear h
  induction hreads with
  | var hv => rw [eval, eval, hv]
  | par hk => rw [eval, eval, hk]
  | const x => rfl
  | unary op _ iha => rw [eval, eval, iha]
  | binary op _ _ iha ihb => rw [eval, eval, iha, ihb]
  | choose _ _ _ ihc iha ihb => rw [eval, eval, ihc, iha, ihb]

namespace Declaration

theorem lookup_bindFormulas {v : String} (hv : v ∉ fs.map Prod.fst)
    (h : bindFormulas params fs env = .ok τ) : τ.lookup v = env.lookup v := by
  induction fs generalizing env with
  | nil => rw [Except.ok.inj h]
  | cons f fs ih =>
    obtain ⟨x, -, h⟩ := bind_eq_ok.1 h
    simp only [List.map_cons, List.mem_cons, not_or] at hv
    rw [ih hv.2 h, lookup_cons_of_ne hv.1]

theorem lookup_bindFormulas_ne_none {v : String} (h : bindFormulas params fs env = .ok τ)
    (hv : v ∈ fs.map Prod.fst ∨ env.lookup v ≠ none) : τ.lookup v ≠ none := by
  induction fs generalizing env with
  | nil =>
    obtain rfl := Except.ok.inj h
    exact hv.resolve_left List.not_mem_nil
  | cons f fs ih =>
    obtain ⟨x, -, h⟩ := bind_eq_ok.1 h
    refine ih h ?_
    rw [List.map_cons, List.mem_cons] at hv
    by_cases hvf : v = f.1
    · subst hvf
      exact .inr (by rw [List.lookup_cons_self]; exact Option.some_ne_none x)
    · rw [lookup_cons_of_ne hvf]
      exact hv.imp_left fun h => h.resolve_left hvf

theorem bindFormulas_same (hparams : params.Same params') (henv : env.Same env')
    (h : bindFormulas params fs env = .ok τ) :
    ∃ τ', bindFormulas params' fs env' = .ok τ' ∧ τ.Same τ' := by
  induction fs generalizing env env' with
  | nil =>
    obtain rfl := Except.ok.inj h
    exact ⟨env', rfl, henv⟩
  | cons f fs ih =>
    obtain ⟨x, hx, h⟩ := bind_eq_ok.1 h
    obtain ⟨τ', hτ', hsame⟩ := ih (henv.cons f.1 x) h
    exact ⟨τ', bind_eq_ok.2 ⟨x, (Expr.eval_congr hparams fun v _ => henv v).trans hx, hτ'⟩, hsame⟩

end Declaration

namespace Scheduled

/-- After a schedule every formula has its value among all values. -/
theorem bindFormulas_value (h : Scheduled fs)
    (hτ : Declaration.bindFormulas params fs env = .ok τ) :
    ∀ f ∈ fs, ∃ x, f.2.eval τ params = .ok x ∧ τ.lookup f.1 = some x := by
  induction fs generalizing env with
  | nil => exact fun f hf => nomatch hf
  | cons f fs ih =>
    intro g hg
    obtain ⟨x, hx, hrest⟩ := bind_eq_ok.1 hτ
    rcases List.mem_cons.1 hg with rfl | hg
    · refine ⟨x, ?_, ?_⟩
      · rw [Expr.eval_congr (fun _ => rfl) fun v hv =>
          Declaration.lookup_bindFormulas (h.reads_notMem hv) hτ, hx]
      · rw [Declaration.lookup_bindFormulas h.head_notMem hrest, List.lookup_cons_self]
    · exact ih h.tail hrest g hg

/-- A schedule finds values of which each is that of its formula. -/
theorem bindFormulas_of_value (h : Scheduled fs)
    (hframe : ∀ v, v ∉ fs.map Prod.fst → env.lookup v = τ.lookup v)
    (hvalue : ∀ f ∈ fs, ∃ x, f.2.eval τ params = .ok x ∧ τ.lookup f.1 = some x) :
    ∃ τ', Declaration.bindFormulas params fs env = .ok τ' ∧ τ.Same τ' := by
  induction fs generalizing env with
  | nil => exact ⟨env, rfl, fun v => hframe v List.not_mem_nil⟩
  | cons f fs ih =>
    obtain ⟨x, hx, hlookup⟩ := hvalue f List.mem_cons_self
    have hnext (v : String) (hv : v ∉ fs.map Prod.fst) :
        List.lookup v ((f.1, x) :: env) = τ.lookup v := by
      by_cases hvf : v = f.1
      · rw [hvf, List.lookup_cons_self, hlookup]
      · rw [lookup_cons_of_ne hvf]
        exact hframe v (by simp [hvf, hv])
    obtain ⟨τ', hτ', hsame⟩ := ih h.tail hnext fun g hg => hvalue g (List.mem_cons_of_mem f hg)
    refine ⟨τ', bind_eq_ok.2 ⟨x, ?_, hτ'⟩, hsame⟩
    rw [← hx]
    exact Expr.eval_congr (fun _ => rfl) fun v hv => hframe v (h.reads_notMem hv)

/-- Two schedules of the same formulas give every name the same value. -/
theorem bindFormulas_perm (hf : Scheduled fs) (hg : Scheduled gs) (hperm : gs.Perm fs)
    (hparams : params.Same params') (henv : env.Same env')
    (h : Declaration.bindFormulas params fs env = .ok τ) :
    ∃ τ', Declaration.bindFormulas params' gs env' = .ok τ' ∧ τ.Same τ' := by
  refine hg.bindFormulas_of_value (fun v hv => ?_) fun g hmem => ?_
  · rw [henv v]
    exact (Declaration.lookup_bindFormulas (mt (hperm.map _).mem_iff.2 hv) h).symm
  · rw [Expr.eval_congr hparams fun _ _ => rfl]
    exact hf.bindFormulas_value h g (hperm.mem_iff.1 hmem)

/-- Two schedules of the same formulas compute the same number for every name. -/
theorem computed_perm (hf : Scheduled fs) (hg : Scheduled gs) (hperm : gs.Perm fs)
    (p x : String → K) : computed p gs x = computed p fs x := by
  have hframe (v : String) : x v = computed p fs x v ∨ v ∈ gs.map Prod.fst := by
    by_cases hv : v ∈ gs.map Prod.fst
    · exact .inr hv
    · exact .inl (computed_of_notMem (mt (hperm.map _).mem_iff.2 hv)).symm
  exact funext fun v => hg.computed_eq (fun g _ w _ => hframe w)
    (fun g hmem => (hf.computed_value x g (hperm.mem_iff.1 hmem)).symm) v (hframe v)

end Scheduled

namespace Program

omit [Scalar K] in
theorem lookup_inputBindings {names : List String} (hn : names.Nodup) (z : String → Grid s K)
    (v : String) : (inputBindings names (names.map z)).lookup v =
      if v ∈ names then some (Values.ofGrid (z v)) else none := by
  have hzip : names.zip ((names.map z).map Values.ofGrid) =
      names.map fun w => (w, Values.ofGrid (z w)) := by
    rw [List.map_map]
    exact List.map_prod_left_eq_zip.symm
  have hkeys : ((names.map fun w => (w, Values.ofGrid (z w))).map Prod.fst).Nodup := by
    rw [List.map_map]
    exact (List.map_id names).symm ▸ hn
  rw [inputBindings, Declaration.bindAll_eq, List.append_nil, hzip, lookup_reverse hkeys]
  split
  · rename_i hv
    exact lookup_map_self (fun w => Values.ofGrid (z w)) hv
  · rename_i hv
    rw [← hzip]
    exact lookup_zip_of_notMem _ hv

theorem numbersOf_perm {names names' : List String} (hperm : names'.Perm names)
    (z : String → K) : numbersOf names' (names'.map z) = numbersOf names (names.map z) := by
  funext v
  by_cases hv : v ∈ names
  · rw [numbersOf_map hv, numbersOf_map (hperm.mem_iff.2 hv)]
  · rw [numbersOf, numbersOf, valueOf, valueOf, lookup_zip_of_notMem _ hv,
      lookup_zip_of_notMem _ (mt hperm.mem_iff.1 hv)]

/-- The second program has the inputs of the first one and some of its outputs in any order, and its
first declarations are a rearrangement of those of the first one. -/
structure Rearranges (p q : Program K) : Prop where
  backend : q.backend = p.backend
  laws : p.ByFormulas
  nodup : p.inputs.Nodup
  inputs : q.inputs.Perm p.inputs
  outputs : ∀ o ∈ q.outputs, o ∈ p.outputs
  fluxes : ∃ fs gs rest, p.fluxes = fs ++ rest ∧ q.fluxes = gs ++ rest ∧ gs.Perm fs ∧
    Item.InOrder (fs.map Declaration.item) ∧ Item.InOrder (gs.map Declaration.item)

variable {p q : Program K} {weights weights' : Weights K}

namespace Rearranges

omit [Scalar K] in
theorem fluxes_perm (h : p.Rearranges q) : q.fluxes.Perm p.fluxes := by
  obtain ⟨fs, gs, rest, hp, hq, hperm, -⟩ := h.fluxes
  rw [hp, hq]
  exact hperm.append_right rest

omit [Scalar K] in
theorem formulas (h : p.Rearranges q) : ∃ fs gs rest, p.formulas = fs ++ rest ∧
    q.formulas = gs ++ rest ∧ gs.Perm fs ∧ Scheduled fs ∧ Scheduled gs := by
  obtain ⟨fs, gs, rest, hp, hq, hperm, hfs, hgs⟩ := h.fluxes
  refine ⟨_, _, rest.flatMap Declaration.formulas, ?_, ?_, hperm.flatMap_right _,
    Declaration.scheduled hfs, Declaration.scheduled hgs⟩
  · rw [Program.formulas, hp, List.flatMap_append]
  · rw [Program.formulas, hq, List.flatMap_append]

omit [Scalar K] in
theorem mem_params (h : p.Rearranges q) {k : String} : k ∈ q.params ↔ k ∈ p.params := by
  simp only [params, mem_orderedUnion, (h.fluxes_perm.map _).mem_iff]

theorem runElementwise (h : p.Rearranges q) (hparams : params.Same params')
    (z : String → Grid s K) {outs : List (Grid s K)}
    (hrun : p.runElementwise (p.inputs.map z) params weights = .ok outs) :
    ∃ y : String → Grid s K, outs = p.outputs.map y ∧
      q.runElementwise (q.inputs.map z) params' weights' = .ok (q.outputs.map y) := by
  obtain ⟨fs, gs, rest, hp, hq, hperm, hfs, hgs⟩ := h.formulas
  have hlaws : q.ByFormulas := fun f hf => h.laws f (h.fluxes_perm.mem_iff.1 hf)
  rw [Program.runElementwise, foldlM_bind_eq h.laws] at hrun
  obtain ⟨τ, hτ, houts⟩ := bind_eq_ok.1 hrun
  have hinputs : Bindings.Same (inputBindings p.inputs (p.inputs.map z))
      (inputBindings q.inputs (q.inputs.map z)) := by
    intro v
    rw [lookup_inputBindings h.nodup, lookup_inputBindings (h.inputs.nodup_iff.2 h.nodup)]
    simp only [h.inputs.mem_iff]
  have hbound : ∃ τ', Declaration.bindFormulas params' q.formulas
      (inputBindings q.inputs (q.inputs.map z)) = .ok τ' ∧ τ.Same τ' := by
    rw [← Program.formulas, hp, Declaration.bindFormulas_append] at hτ
    obtain ⟨σ, hσ, hτ⟩ := bind_eq_ok.1 hτ
    obtain ⟨σ', hσ', hsame⟩ := hfs.bindFormulas_perm hgs hperm hparams hinputs hσ
    obtain ⟨τ', hτ', hsame⟩ := Declaration.bindFormulas_same hparams hsame hτ
    rw [hq, Declaration.bindFormulas_append]
    exact ⟨τ', bind_eq_ok.2 ⟨σ', hσ', hτ'⟩, hsame⟩
  obtain ⟨τ', hτ', hsame⟩ := hbound
  let y (o : String) : Grid s K :=
    ((τ.lookup o).bind fun v => v.tensor.repeat? s).getD (Grid.replicate Scalar.nan)
  have hread (o : String) (g : Grid s K)
      (hg : (do
        let v ← Values.orFault .unknownName (τ.lookup o)
        Values.orFault .value (v.tensor.repeat? s)) = Except.ok g) : g = y o := by
    obtain ⟨v, hv, hg⟩ := bind_eq_ok.1 hg
    simp only [y, orFault_eq_ok.1 hv, Option.bind_some, orFault_eq_ok.1 hg, Option.getD_some]
  have houtputs : outs = p.outputs.map y := by
    rw [← List.forall₂_eq_eq_eq, List.forall₂_map_right_iff]
    exact (mapM_eq_ok.1 houts).flip.imp fun g o hg => hread o g hg
  refine ⟨y, houtputs, ?_⟩
  rw [Program.runElementwise, foldlM_bind_eq hlaws]
  refine bind_eq_ok.2 ⟨τ', hτ', ?_⟩
  rw [mapM_eq_ok_map]
  intro o ho
  obtain ⟨g, -, hg⟩ := exists_of_mapM_eq_ok houts (h.outputs o ho)
  rw [hsame, hg, hread o g hg]

variable {cells : Index s → Scope K}

theorem runSymbolic (h : p.Rearranges q) (hparams : params.Same params')
    (ha : params.Hold cells) (hargs : ∀ k ∈ p.params, ∀ i, ∃ x, cells i k = some (.double x))
    (z : String → Grid s K) {outs : List (Grid s K)}
    (hrun : p.runSymbolic (p.inputs.map z) params = .ok outs) :
    ∃ y : String → Grid s K, outs = p.outputs.map y ∧
      q.runSymbolic (q.inputs.map z) params' = .ok (q.outputs.map y) := by
  obtain ⟨fs, gs, rest, hp, hq, hperm, hfs, hgs⟩ := h.formulas
  choose! args hargs using fun i k hk => hargs k hk i
  let y (o : String) : Grid s K := Grid.ofFn fun i =>
    computed (args i) p.formulas (numbersOf p.inputs (p.inputs.map fun v => (z v).get i)) o
  have hcomputed (i : Index s) :
      computed (args i) q.formulas (numbersOf q.inputs (q.inputs.map fun v => (z v).get i)) =
      computed (args i) p.formulas (numbersOf p.inputs (p.inputs.map fun v => (z v).get i)) := by
    rw [hp, hq, computed_append, computed_append, numbersOf_perm h.inputs,
      hfs.computed_perm hgs hperm]
  have hget {names : List String} {rows : List (Grid s K)} (hlen : rows.length = names.length)
      (hrows : ∀ i, rows.map (·.get i) = names.map fun o => (y o).get i) :
      rows = names.map y := by
    refine List.ext_getElem (by simpa using hlen) fun k hk hk' => Grid.ext_get fun i => ?_
    have hi := congrArg (·[k]?) (hrows i)
    simpa [hk, hlen ▸ hk] using hi
  have hnames (names : List String) (i : Index s) :
      (names.map z).map (·.get i) = names.map fun v => (z v).get i := List.map_map
  refine ⟨y, ?_, ?_⟩
  · obtain ⟨outs', hrun', hlen, hvalues⟩ := runSymbolic_exists h.nodup ha
      (fun k hk i => hargs i k hk) (p.inputs.map z)
    obtain rfl := Except.ok.inj (hrun.symm.trans hrun')
    refine hget hlen fun i => ?_
    simp only [hvalues i, hnames, y, Grid.get_ofFn]
  · obtain ⟨outs', hrun', hlen, hvalues⟩ := runSymbolic_exists (r := q)
      (h.inputs.nodup_iff.2 h.nodup) (hparams.hold ha)
      (fun k hk i => hargs i k (h.mem_params.1 hk)) (q.inputs.map z)
    rw [hrun']
    refine congrArg Except.ok (hget hlen fun i => ?_)
    simp only [hvalues i, hnames, hcomputed, y, Grid.get_ofFn]

/-- A rearranged program returns the same rows by name. -/
theorem run (h : p.Rearranges q) (hparams : params.Same params')
    (ha : params.Hold cells) (hargs : ∀ k ∈ p.params, ∀ i, ∃ x, cells i k = some (.double x))
    (z : String → Grid s K) {outs : List (Grid s K)}
    (hrun : p.run (p.inputs.map z) params weights = .ok outs) :
    ∃ y : String → Grid s K, outs = p.outputs.map y ∧
      q.run (q.inputs.map z) params' weights' = .ok (q.outputs.map y) := by
  unfold Program.run at hrun ⊢
  rw [h.backend]
  cases hbackend : p.backend with
  | elementwise =>
    rw [hbackend] at hrun
    exact h.runElementwise hparams z hrun
  | symbolic =>
    rw [hbackend] at hrun
    exact h.runSymbolic hparams ha hargs z hrun

end Rearranges

end Program

end Catchment
