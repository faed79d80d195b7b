import Catchment.Proofs.NamedRuns
import Catchment.Proofs.PickedNodes

/-!
# Values of programs

At one position a program of formulas gives its outputs some values exactly if each formula,
evaluated at these values, has the value of its name. Over whole rows that takes the format of every
name, which follows from the formulas.
-/
namespace Catchment

variable {K : Type} {F : String → Format} {z p : String → K} {params base σ τ : Scope K}

def ExactFormats (F : String → Format) (fs : List (String × Expr K)) : Prop :=
  ∀ f ∈ fs, ∀ g, f.2.format F = .ok g → g = F f.1

/-- The formats of all names after formulas in order; other names stand for doubles. -/
def formatsOf (fs : List (String × Expr K)) : String → Format :=
  fs.foldl (fun F f => Function.update F f.1 ((f.2.format F).toOption.getD .double))
    fun _ => .double

theorem Expr.format_congr {F G : String → Format} {e : Expr K} (h : ∀ v ∈ e.reads, F v = G v) :
    e.format F = e.format G := by
  have hreads : e.ReadsOnly (fun v => F v = G v) fun _ => True := readsOnly h fun _ _ => trivial
  clear h
  induction hreads with
  | var hv => rw [format, format, hv]
  | par _ => rfl
  | const x => rfl
  | unary op _ iha => rw [format, format, iha]
  | binary op _ _ iha ihb => rw [format, format, iha, ihb]
  | choose _ _ _ ihc iha ihb => rw [format, format, ihc, iha, ihb]

namespace Scheduled

variable {fs : List (String × Expr K)}

theorem formats_foldl (h : Scheduled fs) (F : String → Format) :
    let G := fs.foldl (fun F f => Function.update F f.1 ((f.2.format F).toOption.getD .double)) F
    (∀ v, v ∉ fs.map Prod.fst → G v = F v) ∧ ExactFormats G fs := by
  induction fs generalizing F with
  | nil => exact ⟨fun _ _ => rfl, fun f hf => nomatch hf⟩
  | cons f fs ih =>
    obtain ⟨hframe, hexact⟩ := ih h.tail
      (Function.update F f.1 ((f.2.format F).toOption.getD .double))
    have hkept (v : String) (hv : v ∉ (f :: fs).map Prod.fst) :
        (f :: fs).foldl (fun F f => Function.update F f.1 ((f.2.format F).toOption.getD .double)) F
          v = F v := by
      rw [List.map_cons, List.mem_cons, not_or] at hv
      exact (hframe v hv.2).trans (Function.update_of_ne hv.1 ..)
    refine ⟨hkept, List.forall_mem_cons.2 ⟨fun g hg => ?_, hexact⟩⟩
    rw [Expr.format_congr fun v hv => hkept v (h.reads_notMem hv)] at hg
    exact ((hframe f.1 h.head_notMem).trans (by rw [Function.update_self, hg]; rfl)).symm

theorem exactFormats (h : Scheduled fs) : ExactFormats (formatsOf fs) fs := (h.formats_foldl _).2

theorem formatsOf_of_notMem (h : Scheduled fs) {v : String} (hv : v ∉ fs.map Prod.fst) :
    formatsOf fs v = .double := (h.formats_foldl _).1 v hv

end Scheduled

theorem Scope.named_eq {c : Cell K} {v : String} (hformat : c.format = F v)
    (hvalue : c.value = z v) : some c = Scope.named F z v := by
  rw [Scope.named, ← hformat, ← hvalue]

variable [Scalar K]

theorem Expr.format_of_evalCell {e : Expr K} {c : Cell K}
    (hreads : ∀ v ∈ e.reads, ∀ c, σ v = some c → c.format = F v)
    (hparams : ∀ k ∈ e.readsParams, ∀ c, params k = some c → c.format = .double)
    (h : e.evalCell σ params = .ok c) : e.format F = .ok c.format := by
  have honly := readsOnly hreads hparams
  clear hreads hparams
  induction honly generalizing c with
  | @var name hname =>
    rw [evalCell] at h
    cases hσ : σ name with
    | none => simp [hσ] at h
    | some d =>
      rw [hσ, Option.elim_some, Except.ok.injEq] at h
      rw [format, ← h, hname d hσ]
  | @par name hname =>
    rw [evalCell] at h
    cases hσ : params name with
    | none => simp [hσ] at h
    | some d =>
      rw [hσ, Option.elim_some, Except.ok.injEq] at h
      rw [format, ← h, hname d hσ]
  | const x => rw [← Except.ok.inj h, format]
  | unary op _ iha =>
    obtain ⟨x, hx, h⟩ := bind_eq_ok.1 h
    rw [format, iha hx]
    exact Cell.result_of_unary h
  | binary op _ _ iha ihb =>
    obtain ⟨x, hx, h⟩ := bind_eq_ok.1 h
    obtain ⟨y, hy, h⟩ := bind_eq_ok.1 h
    rw [format, iha hx, ihb hy]
    exact Cell.result_of_binary h
  | choose _ _ _ ihc iha ihb =>
    obtain ⟨w, hw, h⟩ := bind_eq_ok.1 h
    obtain ⟨x, hx, h⟩ := bind_eq_ok.1 h
    obtain ⟨y, hy, h⟩ := bind_eq_ok.1 h
    rw [format, ihc hw, iha hx, ihb hy, ← Except.ok.inj h]
    rfl

namespace ExactFormats

variable {f : String × Expr K} {fs : List (String × Expr K)}

theorem of_evalCell (hF : ExactFormats F fs) (hf : f ∈ fs) {c : Cell K}
    (hreads : ∀ v ∈ f.2.reads, ∀ c, σ v = some c → c.format = F v)
    (hparams : ∀ k ∈ f.2.readsParams, params k = Scope.doubles p k)
    (h : f.2.evalCell σ params = .ok c) : c.format = F f.1 := by
  refine hF f hf _ (Expr.format_of_evalCell hreads (fun k hk c hc => ?_) h)
  rw [hparams k hk] at hc
  exact (Option.some.inj hc) ▸ rfl

/-- After formulas every name stands for a number in its format. -/
theorem of_evalFormulas (hF : ExactFormats F fs) (hs : Scheduled fs)
    (hparams : ∀ f ∈ fs, ∀ k ∈ f.2.readsParams, params k = Scope.doubles p k)
    (hbase : ∀ v, v ∉ fs.map Prod.fst → ∀ c, base v = some c → c.format = F v)
    (h : evalFormulas params fs base = .ok τ) : ∀ v c, τ v = some c → c.format = F v := by
  induction fs generalizing base with
  | nil =>
    obtain rfl := Except.ok.inj h
    exact fun v => hbase v List.not_mem_nil
  | cons f fs ih =>
    obtain ⟨c, hc, h⟩ := bind_eq_ok.1 h
    have hmem : f ∈ f :: fs := List.mem_cons_self
    have hformat : c.format = F f.1 :=
      hF.of_evalCell hmem (fun v hv => hbase v (hs.reads_notMem hv)) (hparams f hmem) hc
    refine ih (fun g hg => hF g (List.mem_cons_of_mem f hg)) hs.tail
      (fun g hg => hparams g (List.mem_cons_of_mem f hg)) (fun v hv d hd => ?_) h
    by_cases hvf : v = f.1
    · rw [hvf, Scope.set_self, Option.some.injEq] at hd
      rw [← hd, hformat, hvf]
    · rw [Scope.set_of_ne hvf] at hd
      exact hbase v (by simp [hvf, hv]) d hd

/-- Formulas that have the values of their names can be evaluated, with those values. -/
theorem evalFormulas_exists (hF : ExactFormats F fs) (hs : Scheduled fs)
    (hparams : ∀ f ∈ fs, ∀ k ∈ f.2.readsParams, params k = Scope.doubles p k)
    (hreads : ∀ f ∈ fs, ∀ v ∈ f.2.reads, base v = Scope.named F z v ∨ v ∈ fs.map Prod.fst)
    (h : ∀ f ∈ fs, HoldsAt .elementwise F z p f) :
    ∃ τ, evalFormulas params fs base = .ok τ ∧
      ∀ v, base v = Scope.named F z v ∨ v ∈ fs.map Prod.fst → τ v = Scope.named F z v := by
  have hknown (v : String) (hv : base v = Scope.named F z v ∨ v ∈ fs.map Prod.fst) :
      (if v ∈ fs.map Prod.fst then Scope.named F z v else base v) = Scope.named F z v := by
    by_cases hmem : v ∈ fs.map Prod.fst
    · exact if_pos hmem
    · exact (if_neg hmem).trans (hv.resolve_right hmem)
  refine ⟨fun v => if v ∈ fs.map Prod.fst then Scope.named F z v else base v,
    hs.evalFormulas_eq_ok.2 ⟨fun v hv => if_neg hv, fun f hf => ?_⟩, hknown⟩
  obtain ⟨c, hc, hvalue⟩ := bind_eq_ok.1 (h f hf)
  have hformat : c.format = F f.1 := by
    refine hF.of_evalCell hf (fun v _ d hd => ?_) (fun k _ => rfl) hc
    exact (Option.some.inj hd) ▸ rfl
  refine ⟨c, (Expr.evalCell_eq (fun v hv => hknown v (hreads f hf v hv)) (hparams f hf)).trans hc,
    ?_⟩
  rw [if_pos (List.mem_map_of_mem hf), Scope.named_eq hformat (Except.ok.inj hvalue)]

/-- Formulas that are evaluated to some values have the values of their names. -/
theorem holdsAt_of_evalFormulas (hF : ExactFormats F fs) (hs : Scheduled fs)
    (hparams : ∀ f ∈ fs, ∀ k ∈ f.2.readsParams, params k = Scope.doubles p k)
    (hbase : ∀ v, v ∉ fs.map Prod.fst → ∀ c, base v = some c → c.format = F v)
    (hreads : ∀ f ∈ fs, ∀ v ∈ f.2.reads, base v = Scope.named F z v ∨ v ∈ fs.map Prod.fst)
    (hτ : evalFormulas params fs base = .ok τ)
    (hz : ∀ f ∈ fs, (τ f.1).map Cell.value = some (z f.1)) :
    ∀ f ∈ fs, HoldsAt .elementwise F z p f := by
  have hformat := hF.of_evalFormulas hs hparams hbase hτ
  obtain ⟨hframe, hvalue⟩ := hs.evalFormulas_eq_ok.1 hτ
  have hcomputed (f : String × Expr K) (hf : f ∈ fs) : τ f.1 = Scope.named F z f.1 := by
    obtain ⟨c, -, hc⟩ := hvalue f hf
    have hz := hz f hf
    rw [hc, Option.map_some, Option.some.injEq] at hz
    rw [hc, Scope.named_eq (hformat _ c hc) hz]
  intro f hf
  obtain ⟨c, hc, hσ⟩ := hvalue f hf
  have hnamed : f.2.evalCell (Scope.named F z) (Scope.doubles p) = .ok c := by
    refine (Expr.evalCell_eq (fun v hv => ?_) (hparams f hf)).symm.trans hc
    by_cases hmem : v ∈ fs.map Prod.fst
    · obtain ⟨g, hg, rfl⟩ := List.mem_map.1 hmem
      exact hcomputed g hg
    · exact (hframe v hmem).trans ((hreads f hf v hv).resolve_right hmem)
  refine bind_eq_ok.2 ⟨c, hnamed, ?_⟩
  have hz := hz f hf
  rw [hσ, Option.map_some, Option.some.injEq] at hz
  rw [hz]
  rfl

end ExactFormats

/-- Rates that do not read each other are all computed among the given numbers. -/
theorem computed_rates {rates : List (StateFlux K)} (hstates : (rates.map fun r => r.state).Nodup)
    (hfree : RatesFree rates) (p x : String → K) {r : StateFlux K} (hr : r ∈ rates) :
    computed p (rateFormulas rates) x (rateName r.state) = r.expr.symbolic x p := by
  have hmem : (rateName r.state, r.expr) ∈ rateFormulas rates := List.mem_map_of_mem hr
  have hfree := hfree.rateFormulas_notMem
  rw [(Scheduled.of_independent (nodup_rateFormulas hstates) hfree).computed_value x _ hmem]
  exact Expr.symbolic_congr (fun v hv => computed_of_notMem (hfree _ hmem v hv)) fun _ _ => rfl

namespace Program

variable {q : Program K} {fs : List (String × Expr K)} {rates : List (StateFlux K)}

/-- Formulas in order that read the inputs of a program and one another. Over whole rows, no formula
has another format than its name, and the inputs are doubles. -/
structure Evaluates (q : Program K) (F : String → Format) (fs : List (String × Expr K)) : Prop where
  scheduled : Scheduled fs
  reads : ∀ f ∈ fs, ∀ v ∈ f.2.reads, v ∈ q.inputs ∨ v ∈ fs.map Prod.fst
  formats : q.backend = .elementwise → ExactFormats F fs
  given : q.backend = .elementwise → ∀ v ∈ q.inputs, F v = .double

namespace Evaluates

omit [Scalar K] in
theorem scopeOf_eq (h : q.Evaluates F fs) (hb : q.backend = .elementwise) {v : String}
    (hv : v ∈ q.inputs) : scopeOf q.inputs (q.inputs.map z) v = Scope.named F z v := by
  rw [scopeOf_self hv]
  exact Scope.named_eq (h.given hb v hv).symm rfl

omit [Scalar K] in
theorem scopeOf_format (h : q.Evaluates F fs) (hb : q.backend = .elementwise) (v : String)
    (c : Cell K) (hc : scopeOf q.inputs (q.inputs.map z) v = some c) : c.format = F v := by
  by_cases hv : v ∈ q.inputs
  · rw [h.scopeOf_eq hb hv] at hc
    exact (Option.some.inj hc) ▸ rfl
  · rw [scopeOf, lookup_zip_of_notMem _ hv] at hc
    cases hc

theorem evalFormulas_exists (h : q.Evaluates F fs) (hb : q.backend = .elementwise)
    (hparams : ∀ f ∈ fs, ∀ k ∈ f.2.readsParams, params k = Scope.doubles p k)
    (hz : ∀ f ∈ fs, HoldsAt q.backend F z p f) :
    ∃ τ, evalFormulas params fs (scopeOf q.inputs (q.inputs.map z)) = .ok τ ∧
      ∀ v, v ∈ q.inputs ∨ v ∈ fs.map Prod.fst → τ v = Scope.named F z v := by
  obtain ⟨τ, hτ, hnamed⟩ := (h.formats hb).evalFormulas_exists h.scheduled hparams
    (fun f hf v hv => (h.reads f hf v hv).imp_left (h.scopeOf_eq hb)) (hb ▸ hz)
  exact ⟨τ, hτ, fun v hv => hnamed v (hv.imp_left (h.scopeOf_eq hb))⟩

theorem computed_eq (h : q.Evaluates F fs) (hb : q.backend = .symbolic)
    (hz : ∀ f ∈ fs, HoldsAt q.backend F z p f) {v : String}
    (hv : v ∈ q.inputs ∨ v ∈ fs.map Prod.fst) :
    computed p fs (numbersOf q.inputs (q.inputs.map z)) v = z v := by
  rw [hb] at hz
  exact h.scheduled.computed_eq (fun f hf v hv => (h.reads f hf v hv).imp_left numbersOf_map)
    (fun f hf => Except.ok.inj (hz f hf)) v (hv.imp_left numbersOf_map)

end Evaluates

theorem number_of_doubles {k : String} (h : params k = Scope.doubles p k) :
    params.number k = p k := by
  rw [Scope.number, h]
  rfl

/-- A program gives its outputs some values exactly if its formulas hold there. -/
theorem evalAt_eq_ok (h : q.Evaluates F q.formulas)
    (hout : ∀ o, o ∈ q.outputs ↔ o ∈ q.formulas.map Prod.fst)
    (hparams : ∀ k ∈ q.params, params k = Scope.doubles p k) :
    q.evalAt params (q.inputs.map z) = .ok (q.outputs.map z) ↔
      ∀ f ∈ q.formulas, HoldsAt q.backend F z p f := by
  have hparams (f : String × Expr K) (hf : f ∈ q.formulas) (k : String)
      (hk : k ∈ f.2.readsParams) : params k = Scope.doubles p k :=
    hparams k (formulas_readsParams hf hk)
  unfold evalAt
  cases hb : q.backend with
  | elementwise =>
    simp only [evalOutputs_eq_ok, List.forall₂_map_right_iff, List.forall₂_same]
    constructor
    · rintro ⟨τ, hτ, hz⟩
      exact (h.formats hb).holdsAt_of_evalFormulas h.scheduled hparams
        (fun v _ => h.scopeOf_format hb v)
        (fun f hf v hv => (h.reads f hf v hv).imp_left (h.scopeOf_eq hb)) hτ
        fun f hf => hz f.1 ((hout _).2 (List.mem_map_of_mem hf))
    · intro hz
      obtain ⟨τ, hτ, hnamed⟩ := h.evalFormulas_exists hb hparams (hb ▸ hz)
      refine ⟨τ, hτ, fun o ho => ?_⟩
      rw [hnamed o (.inr ((hout o).1 ho))]
      rfl
  | symbolic =>
    rw [computed_congr fun f hf k hk => number_of_doubles (hparams f hf k hk)]
    simp only [Except.ok.injEq, List.map_inj_left]
    constructor
    · intro hz f hf
      have hknown (v : String) (hv : v ∈ q.inputs ∨ v ∈ q.formulas.map Prod.fst) :
          computed p q.formulas (numbersOf q.inputs (q.inputs.map z)) v = z v := by
        by_cases hnew : v ∈ q.formulas.map Prod.fst
        · exact hz v ((hout v).2 hnew)
        · exact (computed_of_notMem hnew).trans (numbersOf_map (hv.resolve_right hnew))
      have hname := hknown f.1 (.inr (List.mem_map_of_mem hf))
      rw [h.scheduled.computed_value _ f hf] at hname
      refine congrArg Except.ok (Eq.trans ?_ hname)
      exact Expr.symbolic_congr (fun v hv => (hknown v (h.reads f hf v hv)).symm) fun _ _ => rfl
    · exact fun hz o ho => h.computed_eq hb (hb ▸ hz) (.inr ((hout o).1 ho))

/-- Where the formulas hold that a program evaluates before some rates, it gives the rates the values
that these have there. -/
theorem evalAt_rates (h : q.Evaluates F fs) (hstates : (rates.map fun r => r.state).Nodup)
    (hfree : RatesFree rates) (hq : q.formulas = fs ++ rateFormulas rates)
    (hout : q.outputs = (rates.map fun r => r.state).map rateName)
    (hreads : ∀ r ∈ rates, ∀ v ∈ r.expr.reads, v ∈ q.inputs ∨ v ∈ fs.map Prod.fst)
    (hparams : ∀ k ∈ q.params, params k = Scope.doubles p k)
    (hz : ∀ f ∈ fs, HoldsAt q.backend F z p f) (xs : List K) :
    q.evalAt params (q.inputs.map z) = .ok xs ↔
      (rates.mapM fun r => r.expr.valueAt q.backend F z p) = .ok xs := by
  have hflux (f : String × Expr K) (hf : f ∈ fs) (k : String) (hk : k ∈ f.2.readsParams) :
      params k = Scope.doubles p k :=
    hparams k (formulas_readsParams (hq ▸ List.mem_append_left _ hf) hk)
  have hrate (r : StateFlux K) (hr : r ∈ rates) (k : String) (hk : k ∈ r.expr.readsParams) :
      params k = Scope.doubles p k := by
    refine hparams k (formulas_readsParams (f := (rateName r.state, r.expr)) ?_ hk)
    exact hq ▸ List.mem_append_right _ (List.mem_map_of_mem hr)
  unfold evalAt
  cases hb : q.backend with
  | elementwise =>
    obtain ⟨τ, hτ, hnamed⟩ := h.evalFormulas_exists hb hflux hz
    have hrates : evalRates params rates τ =
        rates.mapM fun r => r.expr.valueAt .elementwise F z p := by
      refine mapM_congr fun r hr => ?_
      rw [Expr.evalCell_eq (fun v hv => hnamed v (hreads r hr v hv)) (hrate r hr)]
      rfl
    dsimp only
    rw [hq, hout, evalOutputs_rates hstates hfree, hτ, ok_bind, hrates]
  | symbolic =>
    have hvalue (r : StateFlux K) (hr : r ∈ rates) :
        computed params.number q.formulas (numbersOf q.inputs (q.inputs.map z))
          (rateName r.state) = r.expr.symbolic z p := by
      rw [hq, computed_append, computed_rates hstates hfree _ _ hr]
      refine Expr.symbolic_congr (fun v hv => ?_)
        fun k hk => number_of_doubles (hrate r hr k hk)
      rw [computed_congr fun f hf k hk => number_of_doubles (hflux f hf k hk)]
      exact h.computed_eq hb hz (hreads r hr v hv)
    have hrates : (rates.mapM fun r => r.expr.valueAt .symbolic F z p) =
        .ok (rates.map fun r => r.expr.symbolic z p) := by
      rw [mapM_eq_ok_map]
      exact fun r _ => rfl
    dsimp only
    simp only [hrates, hout, List.map_map, Function.comp_def, List.map_congr_left hvalue]

end Program

end Catchment
