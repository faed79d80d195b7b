import Catchment.Proofs.BucketRuns
import Catchment.Proofs.CellFormats
import Catchment.Proofs.BucketColumns
import Catchment.Proofs.RateFormulas

/-!
# Values under names

Formulas that are evaluated one after the other give some values to their names exactly if each
formula, evaluated at those values, has the value of its name. No order of evaluation and no bucket
is left in that. Over whole rows it takes formats that are plain.
-/
namespace Catchment

variable {K : Type} {F : String → Format} {z p : String → K} {params base σ : Scope K}

/-- Every name stands for a double or for a literal, no formula has another format than its name,
and no variable that stands for a literal meets a number of half precision. -/
structure PlainFormats (F : String → Format) (fs : List (String × Expr K)) : Prop where
  plain : ∀ v, F v = .double ∨ F v = .literal
  value : ∀ f ∈ fs, ∀ g, f.2.format F = .ok g → g = F f.1
  steady : ∀ f ∈ fs, f.2.steady F = true

namespace PlainFormats

variable {f : String × Expr K} {fs gs : List (String × Expr K)}

theorem subset (h : PlainFormats F fs) (hsub : ∀ g ∈ gs, g ∈ fs) : PlainFormats F gs :=
  ⟨h.plain, fun g hg => h.value g (hsub g hg), fun g hg => h.steady g (hsub g hg)⟩

theorem tail (h : PlainFormats F (f :: fs)) : PlainFormats F fs :=
  h.subset fun _ hg => List.mem_cons_of_mem f hg

theorem near_double (h : PlainFormats F fs) (v : String) :
    Cell.Near ⟨F v, z v⟩ (.double (z v)) := by
  refine ⟨rfl, ?_⟩
  rcases h.plain v with hv | hv
  · exact .inl hv
  · exact .inr ⟨hv, rfl⟩

end PlainFormats

theorem Scope.Follows.next {f : String × Expr K} {fs : List (String × Expr K)} {c : Cell K}
    (hc : Cell.Near ⟨F f.1, z f.1⟩ c) {v : String}
    (hv : base.Follows F z v ∨ v ∈ (f :: fs).map Prod.fst) :
    (base.set f.1 c).Follows F z v ∨ v ∈ fs.map Prod.fst := by
  rw [List.map_cons, List.mem_cons] at hv
  rcases hv with hv | hv | hv
  · exact .inl (.set hc (.inr hv))
  · exact .inl (.set hc (.inl hv))
  · exact .inr hv

theorem scopeOf_self {names : List String} {v : String} (hv : v ∈ names) :
    scopeOf names (names.map z) v = some (.double (z v)) := by
  rw [scopeOf, ← List.map_prod_left_eq_zip, lookup_map_self z hv]
  rfl

variable [Scalar K]

def Expr.valueAt (backend : Backend) (F : String → Format) (z p : String → K) (e : Expr K) :
    Except Fault K :=
  match backend with
  | .elementwise => do
    let c ← e.evalCell (Scope.named F z) (Scope.doubles p)
    return c.value
  | .symbolic => .ok (e.symbolic z p)

def HoldsAt (backend : Backend) (F : String → Format) (z p : String → K) (f : String × Expr K) :
    Prop :=
  f.2.valueAt backend F z p = .ok (z f.1)

def GainsTo (backend : Backend) (F : String → Format) (z p : String → K) (minValue : Option K)
    (r : StateFlux K) (x : K) : Prop :=
  ∃ y, r.expr.valueAt backend F z p = .ok y ∧ raiseTo minValue (z r.state + y) = x

namespace PlainFormats

variable {fs : List (String × Expr K)}

/-- Formulas that have the values of their names can be evaluated, with those values. -/
theorem evalFormulas_exists (hF : PlainFormats F fs) (hs : Scheduled fs)
    (hparams : ∀ f ∈ fs, ∀ k ∈ f.2.readsParams, params k = Scope.doubles p k)
    (hreads : ∀ f ∈ fs, ∀ v ∈ f.2.reads, base.Follows F z v ∨ v ∈ fs.map Prod.fst)
    (h : ∀ f ∈ fs, HoldsAt .elementwise F z p f) :
    ∃ σ, evalFormulas params fs base = .ok σ ∧
      ∀ v, base.Follows F z v ∨ v ∈ fs.map Prod.fst → σ.Follows F z v := by
  induction fs generalizing base with
  | nil => exact ⟨base, rfl, fun v hv => hv.resolve_right List.not_mem_nil⟩
  | cons f fs ih =>
    have hmem : f ∈ f :: fs := List.mem_cons_self
    obtain ⟨c, hc, hvalue⟩ := bind_eq_ok.1 (h f hmem)
    obtain ⟨c', hc', hnear, hformat⟩ := (Expr.evalCell_alike (hF.steady f hmem)
      (fun v hv => (hreads f hmem v hv).resolve_right (hs.reads_notMem hv))
      (hparams f hmem)).of_ok hc
    have hcell : c = ⟨F f.1, z f.1⟩ := by
      rw [← hF.value f hmem _ hformat, ← Except.ok.inj hvalue]
    subst hcell
    obtain ⟨σ, hσ, hfollows⟩ := ih hF.tail hs.tail
      (fun g hg => hparams g (List.mem_cons_of_mem f hg))
      (fun g hg v hv => Scope.Follows.next hnear (hreads g (List.mem_cons_of_mem f hg) v hv))
      fun g hg => h g (List.mem_cons_of_mem f hg)
    exact ⟨σ, bind_eq_ok.2 ⟨c', hc', hσ⟩, fun v hv => hfollows v (Scope.Follows.next hnear hv)⟩

/-- Formulas that are evaluated to some values have the values of their names. -/
theorem holdsAt_of_evalFormulas (hF : PlainFormats F fs) (hs : Scheduled fs)
    (hparams : ∀ f ∈ fs, ∀ k ∈ f.2.readsParams, params k = Scope.doubles p k)
    (hreads : ∀ f ∈ fs, ∀ v ∈ f.2.reads, base.Follows F z v ∨ v ∈ fs.map Prod.fst)
    (hσ : evalFormulas params fs base = .ok σ)
    (hz : ∀ f ∈ fs, (σ f.1).map Cell.value = some (z f.1)) :
    ∀ f ∈ fs, HoldsAt .elementwise F z p f := by
  induction fs generalizing base with
  | nil => exact fun f hf => nomatch hf
  | cons f fs ih =>
    have hmem : f ∈ f :: fs := List.mem_cons_self
    obtain ⟨c', hc', hrest⟩ := bind_eq_ok.1 hσ
    obtain ⟨c, hc, hnear, hformat⟩ := (Expr.evalCell_alike (hF.steady f hmem)
      (fun v hv => (hreads f hmem v hv).resolve_right (hs.reads_notMem hv))
      (hparams f hmem)).ok_of hc'
    have hcell : c = ⟨F f.1, z f.1⟩ := by
      have hlast : σ f.1 = some c' := by
        rw [evalFormulas_of_notMem hrest hs.head_notMem, Scope.set_self]
      have hvalue : c'.value = z f.1 := by simpa [hlast] using hz f hmem
      rw [← hF.value f hmem _ hformat, ← hvalue, ← hnear.1]
    subst hcell
    have htail := ih hF.tail hs.tail (fun g hg => hparams g (List.mem_cons_of_mem f hg))
      (fun g hg v hv => Scope.Follows.next hnear (hreads g (List.mem_cons_of_mem f hg) v hv)) hrest
      fun g hg => hz g (List.mem_cons_of_mem f hg)
    intro g hg
    rcases List.mem_cons.1 hg with rfl | hg
    · exact bind_eq_ok.2 ⟨_, hc, rfl⟩
    · exact htail g hg

end PlainFormats

def BucketDraft.formulas (d : BucketDraft K) : List (String × Expr K) :=
  d.fluxes.flatMap Declaration.formulas

/-- Fluxes by formulas in plain formats, and rates that do not read each other; in no rate a
variable that stands for a literal meets a number of half precision. -/
structure BucketDraft.Plain (F : String → Format) (d : BucketDraft K) : Prop where
  laws : ∀ f ∈ d.fluxes, f.lawName? = none
  free : RatesFree d.rates
  formats : PlainFormats F d.formulas
  rates : ∀ r ∈ d.rates, r.expr.steady F = true

namespace Bucket

variable {b : Bucket K}

theorem mem_ordered_formulas {f : String × Expr K} :
    f ∈ b.ordered.flatMap Declaration.formulas ↔ f ∈ b.formulas :=
  (b.ordered_perm.flatMap_right Declaration.formulas).mem_iff

theorem mem_outputs_iff (hlaws : ∀ f ∈ b.fluxes, f.lawName? = none) {v : String} :
    v ∈ b.outputs ↔ v ∈ (b.ordered.flatMap Declaration.formulas).map Prod.fst := by
  rw [b.mem_outputs, List.map_flatMap, List.mem_flatMap, List.mem_flatMap]
  refine exists_congr fun f => and_congr_right fun hf => ?_
  rw [Declaration.map_fst_formulas (byFormulas_ordered hlaws f hf)]

theorem formulas_readsParams {f : String × Expr K}
    (hf : f ∈ b.ordered.flatMap Declaration.formulas ∨ f ∈ rateFormulas b.rates) :
    ∀ k ∈ f.2.readsParams, k ∈ b.signature.params := by
  intro k hk
  rw [← flatMap_formulas_state, List.mem_flatMap, List.mem_flatMap] at hf
  obtain ⟨g, hg, hf⟩ | ⟨g, hg, hf⟩ := hf
  · refine b.mem_params.2 ⟨g, List.mem_append_left _ (b.ordered_perm.mem_iff.1 hg), ?_⟩
    exact g.readsParams_subset hf k hk
  · exact b.mem_params.2 ⟨g, List.mem_append_right _ hg, g.readsParams_subset hf k hk⟩

theorem formulas_reads {f : String × Expr K}
    (hf : f ∈ b.ordered.flatMap Declaration.formulas) {v : String} (hv : v ∈ f.2.reads) :
    v ∈ b.rowsRead ∨ v ∈ b.outputs := by
  obtain ⟨g, hg, hf⟩ := List.mem_flatMap.1 hf
  rw [b.mem_outputs]
  have hown : ∀ v ∈ g.reads, v ∉ g.outputs := b.inOrder.own g.item (List.mem_map_of_mem hg)
  rcases (g.scheduled_formulas hown).2 f hf v hv with hv | hv
  · exact b.reads_known (List.mem_append_left _ hg) hv
  · exact .inr (List.mem_flatMap.2 ⟨g, hg, hv⟩)

theorem rates_reads {r : StateFlux K} (hr : r ∈ b.rates) {v : String} (hv : v ∈ r.expr.reads) :
    v ∈ b.rowsRead ∨ v ∈ b.outputs := by
  rw [b.mem_outputs]
  exact b.reads_known (List.mem_append_right _ (List.mem_map_of_mem hr)) (r.reads_subset v hv)

variable {minValue : Option K}

theorem follows_rowsRead (hb : b.Plain F) {v : String} (hv : v ∈ b.rowsRead) :
    (scopeOf b.rowsRead (b.rowsRead.map z)).Follows F z v :=
  ⟨_, scopeOf_self hv, hb.formats.near_double v⟩

theorem follows_or_computed (hb : b.Plain F) {v : String}
    (hv : v ∈ b.rowsRead ∨ v ∈ b.outputs) :
    (scopeOf b.rowsRead (b.rowsRead.map z)).Follows F z v ∨
      v ∈ (b.ordered.flatMap Declaration.formulas).map Prod.fst :=
  hv.imp (follows_rowsRead hb) (mem_outputs_iff hb.laws).1

theorem evalFormulas_exists (hb : b.Plain F)
    (hparams : ∀ k ∈ b.signature.params, params k = Scope.doubles p k)
    (h : ∀ f ∈ b.formulas, HoldsAt .elementwise F z p f) :
    ∃ τ, evalFormulas params (b.ordered.flatMap Declaration.formulas)
        (scopeOf b.rowsRead (b.rowsRead.map z)) = .ok τ ∧
      ∀ v, v ∈ b.rowsRead ∨ v ∈ b.outputs → τ.Follows F z v := by
  obtain ⟨τ, hτ, hfollows⟩ := (hb.formats.subset fun f hf => mem_ordered_formulas.1 hf
    ).evalFormulas_exists (Declaration.scheduled b.inOrder)
    (fun f hf k hk => hparams k (formulas_readsParams (.inl hf) k hk))
    (fun f hf v hv => follows_or_computed hb (formulas_reads hf hv))
    fun f hf => h f (mem_ordered_formulas.1 hf)
  exact ⟨τ, hτ, fun v hv => hfollows v (follows_or_computed hb hv)⟩

/-- The outputs of a bucket have some values exactly if its formulas hold there. -/
theorem outputsAt_eq_ok (hb : b.Plain F)
    (hparams : ∀ k ∈ b.signature.params, params k = Scope.doubles p k) :
    b.outputsAt b.ordered params (b.signature.inputs.map z) (b.states.map z) =
        .ok (b.outputs.map z) ↔ ∀ f ∈ b.formulas, HoldsAt .elementwise F z p f := by
  rw [outputsAt, ← List.map_append, evalOutputs_eq_ok]
  simp only [List.forall₂_map_right_iff, List.forall₂_same]
  constructor
  · rintro ⟨τ, hτ, hz⟩ f hf
    refine (hb.formats.subset fun f hf => mem_ordered_formulas.1 hf).holdsAt_of_evalFormulas
      (Declaration.scheduled b.inOrder)
      (fun f hf k hk => hparams k (formulas_readsParams (.inl hf) k hk))
      (fun f hf v hv => follows_or_computed hb (formulas_reads hf hv)) hτ (fun f hf => ?_) f
      (mem_ordered_formulas.2 hf)
    exact hz f.1 ((mem_outputs_iff hb.laws).2 (List.mem_map_of_mem hf))
  · intro h
    obtain ⟨τ, hτ, hfollows⟩ := evalFormulas_exists hb hparams h
    refine ⟨τ, hτ, fun o ho => ?_⟩
    obtain ⟨c, hc, hnear⟩ := hfollows o (.inr ho)
    rw [hc, Option.map_some, ← hnear.1]

/-- Where the formulas of a bucket hold, the states become what each of them gains. -/
theorem statesAfter_eq_ok (hb : b.Plain F)
    (hparams : ∀ k ∈ b.signature.params, params k = Scope.doubles p k)
    (h : ∀ f ∈ b.formulas, HoldsAt .elementwise F z p f) (z' : String → K) :
    b.statesAfter b.ordered params minValue (b.signature.inputs.map z) (b.states.map z) =
        .ok (b.states.map z') ↔
      ∀ r ∈ b.rates, GainsTo .elementwise F z p minValue r (z' r.state) := by
  obtain ⟨τ, hτ, hfollows⟩ := evalFormulas_exists hb hparams h
  have hrate (r : StateFlux K) (hr : r ∈ b.rates) : Alike F r.expr
      (r.expr.evalCell (Scope.named F z) (Scope.doubles p)) (r.expr.evalCell τ params) :=
    Expr.evalCell_alike (hb.rates r hr) (fun v hv => hfollows v (rates_reads hr hv))
      fun k hk => hparams k (formulas_readsParams (.inr (List.mem_map_of_mem hr)) k hk)
  have hsteps : b.statesAfter b.ordered params minValue (b.signature.inputs.map z)
        (b.states.map z) = .ok (b.states.map z') ↔
      ∃ xs, evalRates params b.rates τ = .ok xs ∧
        addRates minValue (b.states.map z) xs = b.states.map z' := by
    rw [statesAfter, ← List.map_append]
    show (evalFormulas params _ (scopeOf b.rowsRead (b.rowsRead.map z)) >>= _) = _ ↔ _
    rw [hτ, ok_bind, bind_eq_ok]
    simp only [pure_eq_ok, Except.ok.injEq]
  have hmap (w : String → K) : b.states.map w = b.rates.map fun r => w r.state := List.map_map
  rw [hsteps, hmap, hmap]
  refine exists_mapM_zipWith.trans (forall₂_congr fun r hr => ?_)
  simp only [GainsTo, Expr.valueAt, bind_eq_ok, pure_eq_ok, Except.ok.injEq]
  constructor
  · rintro ⟨_, ⟨c', hc', rfl⟩, hx⟩
    obtain ⟨c, hc, hnear, -⟩ := (hrate r hr).ok_of hc'
    exact ⟨c.value, ⟨c, hc, rfl⟩, by rw [hnear.1, hx]⟩
  · rintro ⟨_, ⟨c, hc, rfl⟩, hx⟩
    obtain ⟨c', hc', hnear, -⟩ := (hrate r hr).of_ok hc
    exact ⟨c'.value, ⟨c', hc', rfl⟩, by rw [← hnear.1, hx]⟩

end Bucket

end Catchment
