import Catchment.Proofs.ComposedModels
import Catchment.Proofs.NamedRuns

/-!
# Merged buckets

The fluxes and rates of buckets that can be composed in some order make one bucket. It reads the
names that no bucket produces.
-/
namespace Catchment

theorem Item.InOrder.append {as bs : List Item} (ha : InOrder as) (hb : InOrder bs)
    (honce : ∀ a ∈ as, ∀ b ∈ bs, ∀ v ∈ a.produces, v ∉ b.produces)
    (hlater : ∀ a ∈ as, ∀ b ∈ bs, ∀ v ∈ a.reads, v ∉ b.produces) : InOrder (as ++ bs) where
  once := by
    rw [List.flatMap_append]
    refine List.nodup_append.2 ⟨ha.once, hb.once, ?_⟩
    rintro v hv w hw rfl
    obtain ⟨a, haas, hva⟩ := List.mem_flatMap.1 hv
    obtain ⟨b, hbbs, hvb⟩ := List.mem_flatMap.1 hw
    exact honce a haas b hbbs v hva hvb
  own a h := by
    rcases List.mem_append.1 h with h | h
    · exact ha.own a h
    · exact hb.own a h
  later := List.pairwise_append.2 ⟨ha.later, hb.later, hlater⟩

variable {K : Type}

theorem BucketDraft.rateAmongFluxes?_eq_none {d : BucketDraft K} :
    d.rateAmongFluxes? = none ↔ ∀ r, Declaration.state r ∉ d.fluxes := by
  rw [rateAmongFluxes?, List.findSome?_eq_none_iff]
  constructor
  · exact fun h r hr => nomatch h _ hr
  · intro h f hf
    cases f with
    | state r => exact absurd hf (h r)
    | _ => rfl

variable [Scalar K]

theorem Bucket.ofDraft_eq_ok {d : BucketDraft K} {ordered : List (Declaration K)}
    (hrates : d.rateAmongFluxes? = none) (horder : d.order = .ok ordered)
    (hfault : d.fault? ordered = none) : ofDraft d = .ok ⟨d, hrates, ordered, horder, hfault⟩ := by
  unfold ofDraft
  split
  · rename_i cause hcause
    exact absurd (hrates.symm.trans hcause) nofun
  · split
    · rename_i f hf
      exact absurd (horder.symm.trans hf) nofun
    · rename_i ordered' hordered'
      obtain rfl := Except.ok.inj (horder.symm.trans hordered')
      split
      · rename_i cause hcause
        exact absurd (hfault.symm.trans hcause) nofun
      · rfl

/-- All fluxes and all rates of some buckets, to be sorted. -/
def BucketDraft.merge (name : Option String) (bs : List (Bucket K)) : BucketDraft K where
  name
  fluxes := bs.flatMap fun b => b.fluxes
  rates := bs.flatMap fun b => b.rates
  sort := true

namespace BucketDraft

variable {name : Option String} {bs bs' : List (Bucket K)}

theorem states_merge : (merge name bs).states = bs.flatMap fun b => b.states :=
  List.map_flatMap

theorem mem_outputs_merge {v : String} :
    v ∈ (merge name bs).outputs ↔ ∃ b ∈ bs, v ∈ b.outputs := by
  simp only [outputs, merge, mem_orderedUnion, List.mem_map, List.mem_flatMap,
    exists_exists_and_eq_and]
  constructor
  · rintro ⟨f, ⟨b, hb, hf⟩, hv⟩
    exact ⟨b, hb, f, hf, hv⟩
  · rintro ⟨b, hb, f, hf, hv⟩
    exact ⟨f, ⟨b, hb, hf⟩, hv⟩

theorem mem_merge {f : Declaration K} :
    f ∈ (merge name bs).fluxes ++ (merge name bs).rates.map Declaration.state ↔
      ∃ b ∈ bs, f ∈ b.fluxes ++ b.rates.map Declaration.state := by
  simp only [merge, List.mem_append, List.mem_map, List.mem_flatMap]
  constructor
  · rintro (⟨b, hb, hf⟩ | ⟨r, ⟨b, hb, hr⟩, rfl⟩)
    · exact ⟨b, hb, .inl hf⟩
    · exact ⟨b, hb, .inr ⟨r, hr, rfl⟩⟩
  · rintro ⟨b, hb, hf | ⟨r, hr, rfl⟩⟩
    · exact .inl ⟨b, hb, hf⟩
    · exact .inr ⟨r, ⟨b, hb, hr⟩, rfl⟩

theorem inOrder_flatMap
    (h : Item.InOrder (bs.map fun b => b.signature.item)) :
    Item.InOrder ((bs.flatMap fun b => b.ordered).map Declaration.item) := by
  induction bs with
  | nil => exact ⟨.nil, by simp, .nil⟩
  | cons b bs ih =>
    obtain ⟨honce, hown, hlater⟩ := h
    rw [List.map_cons, List.flatMap_cons, List.nodup_append] at honce
    rw [List.map_cons, List.pairwise_cons] at hlater
    rw [List.flatMap_cons, List.map_append]
    have hrest {g : Declaration K} (hg : g ∈ bs.flatMap fun b => b.ordered) {v : String}
        (hv : v ∈ g.outputs) : ∃ a ∈ bs.map fun b => b.signature.item, v ∈ a.produces := by
      obtain ⟨b', hb', hg⟩ := List.mem_flatMap.1 hg
      refine ⟨_, List.mem_map_of_mem hb', List.mem_append_right _ ?_⟩
      exact b'.mem_outputs.2 (List.mem_flatMap.2 ⟨g, hg, hv⟩)
    have hdisjoint {v : String} (hv : v ∈ b.signature.item.produces) {g : Declaration K}
        (hg : g ∈ bs.flatMap fun b => b.ordered) : v ∉ g.outputs := by
      intro hvg
      obtain ⟨a, ha, hva⟩ := hrest hg hvg
      exact honce.2.2 v hv v (List.mem_flatMap.2 ⟨a, ha, hva⟩) rfl
    refine b.inOrder.append
      (ih ⟨honce.2.1, fun a ha => hown a (List.mem_cons_of_mem _ ha), hlater.2⟩) ?_ ?_
    · simp only [List.forall_mem_map]
      intro f hf g hg v hv
      refine hdisjoint (List.mem_append_right _ ?_) hg
      exact b.mem_outputs.2 (List.mem_flatMap.2 ⟨f, hf, hv⟩)
    · simp only [List.forall_mem_map]
      intro f hf g hg v hv
      rcases b.reads_known (List.mem_append_left _ hf) hv with hv | hv
      · rcases List.mem_append.1 hv with hv | hv
        · intro hvg
          obtain ⟨a, ha, hva⟩ := hrest hg hvg
          exact hlater.1 a ha v hv hva
        · exact hdisjoint (List.mem_append_left _ hv) hg
      · exact hdisjoint (List.mem_append_right _ (b.mem_outputs.2 hv)) hg

theorem nodup_produced (h : Item.InOrder (bs.map fun b => b.signature.item)) :
    ((bs.flatMap fun b => b.states) ++ bs.flatMap fun b => b.outputs).Nodup := by
  have honce := h.once
  rw [List.flatMap_map] at honce
  exact (List.flatMap_append_perm bs _ _).nodup_iff.2 honce

/-- Buckets that are in order after a rearrangement make one bucket. -/
theorem merge_exists (name : Option String) (hperm : bs'.Perm bs)
    (h : Item.InOrder (bs'.map fun b => b.signature.item)) :
    ∃ m, Bucket.ofDraft (merge name bs) = .ok m ∧ m.toBucketDraft = merge name bs := by
  have hordered : (bs'.flatMap fun b => b.ordered).Perm (merge name bs).fluxes :=
    (List.Perm.flatMap_left bs' fun b _ => b.ordered_perm).trans (hperm.flatMap_right _)
  obtain ⟨ordered, horder⟩ := sortItems_exists "flux" hordered (inOrder_flatMap h)
  have hrates : (merge name bs).rateAmongFluxes? = none := by
    refine rateAmongFluxes?_eq_none.2 fun r hr => ?_
    obtain ⟨b, -, hr⟩ := List.mem_flatMap.1 hr
    exact rateAmongFluxes?_eq_none.1 b.noRate r hr
  have hfault : (merge name bs).fault? ordered = none := by
    obtain ⟨hstates, -, hdisjoint⟩ := List.nodup_append.1 (nodup_produced h)
    rw [fault?_eq_none, states_merge]
    refine ⟨(hperm.flatMap_right _).nodup_iff.1 hstates, fun v hv ho => ?_⟩
    obtain ⟨b, hb, hvb⟩ := mem_outputs_merge.1 ho
    refine hdisjoint v ((hperm.flatMap_right _).mem_iff.2 hv) v ?_ rfl
    exact List.mem_flatMap.2 ⟨b, hperm.mem_iff.2 hb, hvb⟩
  exact ⟨_, Bucket.ofDraft_eq_ok hrates horder hfault, rfl⟩

end BucketDraft

namespace Bucket

variable {name : Option String} {bs : List (Bucket K)} {m : Bucket K}

/-- The merged bucket reads what some bucket reads and none produces. -/
theorem mem_inputs_merge (hm : m.toBucketDraft = .merge name bs) {v : String} :
    v ∈ m.signature.inputs ↔ (∃ b ∈ bs, v ∈ b.signature.inputs) ∧
      ∀ b ∈ bs, v ∉ b.states ++ b.outputs := by
  have hinputs : v ∈ m.signature.inputs ↔
      (∃ f ∈ m.fluxes ++ m.rates.map Declaration.state, v ∈ f.reads) ∧ v ∉ m.outputs ∧
        v ∉ m.states := Signature.mem_inputs_ofDeclarations
  have hreads : (∃ f ∈ m.fluxes ++ m.rates.map Declaration.state, v ∈ f.reads) ↔
      ∃ b ∈ bs, ∃ f ∈ b.fluxes ++ b.rates.map Declaration.state, v ∈ f.reads := by
    rw [hm]
    simp only [BucketDraft.mem_merge]
    constructor
    · rintro ⟨f, ⟨b, hb, hf⟩, hv⟩
      exact ⟨b, hb, f, hf, hv⟩
    · rintro ⟨b, hb, f, hf, hv⟩
      exact ⟨f, ⟨b, hb, hf⟩, hv⟩
  have hproduced : (v ∉ m.outputs ∧ v ∉ m.states) ↔ ∀ b ∈ bs, v ∉ b.states ++ b.outputs := by
    rw [hm, BucketDraft.states_merge, BucketDraft.mem_outputs_merge, List.mem_flatMap]
    simp only [not_exists, not_and, List.mem_append, not_or]
    exact ⟨fun h b hb => ⟨h.2 b hb, h.1 b hb⟩, fun h => ⟨fun b hb => (h b hb).2,
      fun b hb => (h b hb).1⟩⟩
  rw [hinputs, hreads, hproduced]
  refine and_congr_left fun hnew => exists_congr fun b => and_congr_right fun hb => ?_
  have hb := hnew b hb
  rw [List.mem_append, not_or] at hb
  exact ⟨fun h => Signature.mem_inputs_ofDeclarations.2 ⟨h, hb.2, hb.1⟩,
    fun h => (Signature.mem_inputs_ofDeclarations.1 h).1⟩

theorem mem_params_merge (hm : m.toBucketDraft = .merge name bs) {k : String} :
    k ∈ m.signature.params ↔ ∃ b ∈ bs, k ∈ b.signature.params := by
  simp only [mem_params, hm, BucketDraft.mem_merge]
  constructor
  · rintro ⟨f, ⟨b, hb, hf⟩, hk⟩
    exact ⟨b, hb, f, hf, hk⟩
  · rintro ⟨b, hb, f, hf, hk⟩
    exact ⟨f, ⟨b, hb, hf⟩, hk⟩

end Bucket

variable {name : Option String} {bs : List (Bucket K)} {F : String → Format} {n t : Nat}
  {args : RunArguments K} {s : Settings K}

theorem BucketDraft.Plain.of_mem (h : (BucketDraft.merge name bs).Plain F) {b : Bucket K}
    (hb : b ∈ bs) : b.Plain F where
  laws f hf := h.laws f (List.mem_flatMap.2 ⟨b, hb, hf⟩)
  free r hr r' hr' :=
    h.free r (List.mem_flatMap.2 ⟨b, hb, hr⟩) r' (List.mem_flatMap.2 ⟨b, hb, hr'⟩)
  formats := h.formats.subset fun f hf => by
    obtain ⟨g, hg, hf⟩ := List.mem_flatMap.1 hf
    exact List.mem_flatMap.2 ⟨g, List.mem_flatMap.2 ⟨b, hb, hg⟩, hf⟩
  rates r hr := h.rates r (List.mem_flatMap.2 ⟨b, hb, hr⟩)

/-- Rows are a run of the merged bucket exactly if they are a run of every bucket. -/
theorem namedRun_merge {y : String → Grid [n, t] K} :
    NamedRun F (.merge name bs) args s y ↔ ∀ b ∈ bs, NamedRun F b.toBucketDraft args s y := by
  have hrates (r : StateFlux K) : r ∈ (BucketDraft.merge name bs).rates ↔ ∃ b ∈ bs, r ∈ b.rates :=
    List.mem_flatMap
  have hformulas (f : String × Expr K) :
      f ∈ (BucketDraft.merge name bs).formulas ↔ ∃ b ∈ bs, f ∈ b.formulas := by
    simp only [BucketDraft.formulas, BucketDraft.merge, List.flatMap_assoc, List.mem_flatMap]
  constructor
  · intro h b hb
    exact ⟨fun r hr => h.initial r ((hrates r).2 ⟨b, hb, hr⟩),
      fun f hf => h.holds f ((hformulas f).2 ⟨b, hb, hf⟩),
      fun r hr => h.gains r ((hrates r).2 ⟨b, hb, hr⟩)⟩
  · intro h
    refine ⟨fun r hr => ?_, fun f hf => ?_, fun r hr => ?_⟩
    · obtain ⟨b, hb, hr⟩ := (hrates r).1 hr
      exact (h b hb).initial r hr
    · obtain ⟨b, hb, hf⟩ := (hformulas f).1 hf
      exact (h b hb).holds f hf
    · obtain ⟨b, hb, hr⟩ := (hrates r).1 hr
      exact (h b hb).gains r hr

theorem gives_merge {m : Bucket K} (hm : m.toBucketDraft = .merge name bs) (hne : bs ≠ []) :
    args.Gives s n t m.signature.params m.states ↔
      ∀ b ∈ bs, args.Gives s n t b.signature.params b.states := by
  have hstates {v : String} : v ∈ m.states ↔ ∃ b ∈ bs, v ∈ b.states := by
    rw [hm, BucketDraft.states_merge, List.mem_flatMap]
  have hparams {k : String} := Bucket.mem_params_merge hm (k := k)
  constructor
  · intro h b hb
    exact ⟨h.times, h.paramClasses, h.stateClasses,
      missingNames_eq_nil.2 fun k hk => missingNames_eq_nil.1 h.present k (hparams.2 ⟨b, hb, hk⟩),
      fun k hk => h.params k (hparams.2 ⟨b, hb, hk⟩),
      fun v hv => h.states v (hstates.2 ⟨b, hb, hv⟩)⟩
  · intro h
    obtain ⟨b₀, hb₀⟩ := List.exists_mem_of_ne_nil bs hne
    obtain ⟨times, paramClasses, stateClasses, -⟩ := h b₀ hb₀
    refine ⟨times, paramClasses, stateClasses, missingNames_eq_nil.2 fun k hk => ?_,
      fun k hk => ?_, fun v hv => ?_⟩
    · obtain ⟨b, hb, hk⟩ := hparams.1 hk
      exact missingNames_eq_nil.1 (h b hb).present k hk
    · obtain ⟨b, hb, hk⟩ := hparams.1 hk
      exact (h b hb).params k hk
    · obtain ⟨b, hb, hv⟩ := hstates.1 hv
      exact (h b hb).states v hv

/-- The merged bucket returns rows by name exactly if every bucket returns them. -/
theorem compute_merge [OrderedScalar K] {m : Bucket K} (hm : m.toBucketDraft = .merge name bs)
    (hne : bs ≠ []) (hplain : (BucketDraft.merge name bs).Plain F)
    (hbackend : s.backend = .elementwise) (hs : s.Stepwise t) (hn : 0 < n) (ht : 0 < t)
    {y : String → Grid [n, t] K} :
    (Component.bucket m).compute args s (m.signature.inputs.map y) =
        .ok ⟨(m.states ++ m.outputs).map y, []⟩ ↔
      ∀ b ∈ bs, (Component.bucket b).compute args s (b.signature.inputs.map y) =
        .ok ⟨(b.states ++ b.outputs).map y, []⟩ := by
  have hpart (b : Bucket K) (hb : b ∈ bs) :
      (Component.bucket b).compute args s (b.signature.inputs.map y) =
        .ok ⟨(b.states ++ b.outputs).map y, []⟩ ↔
      args.Gives s n t b.signature.params b.states ∧ NamedRun F b.toBucketDraft args s y :=
    Bucket.compute_iff_namedRun (hplain.of_mem hb) hbackend hs hn ht
  rw [Bucket.compute_iff_namedRun (hm ▸ hplain) hbackend hs hn ht, gives_merge hm hne, hm,
    namedRun_merge, ← forall₂_and]
  exact forall₂_congr fun b hb => (hpart b hb).symm

end Catchment
