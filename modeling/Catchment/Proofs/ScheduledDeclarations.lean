import Catchment.Program
import Catchment.Signature
import Catchment.Proofs.DependencyOrders
import Catchment.Proofs.FormulaOrder
import Catchment.Proofs.NameLists

/-!
# Scheduled declarations

The formulas of declarations that are in dependency order are scheduled, and declarations whose
reads are known or produced among them can be compiled.
-/
namespace Catchment

variable {K : Type}

namespace Scheduled

variable {f : String × Expr K} {fs gs : List (String × Expr K)}

theorem nil : Scheduled ([] : List (String × Expr K)) := ⟨by simp, .nil⟩

theorem cons (hown : f.1 ∉ f.2.reads) (hlater : ∀ g ∈ fs, g.1 ≠ f.1 ∧ g.1 ∉ f.2.reads)
    (h : Scheduled fs) : Scheduled (f :: fs) := by
  refine ⟨fun g hg => ?_, .cons hlater h.later⟩
  rcases List.mem_cons.1 hg with rfl | hg
  · exact hown
  · exact h.own g hg

theorem append (hf : Scheduled fs) (hg : Scheduled gs)
    (hcross : ∀ f ∈ fs, ∀ g ∈ gs, g.1 ≠ f.1 ∧ g.1 ∉ f.2.reads) : Scheduled (fs ++ gs) := by
  refine ⟨fun f h => ?_, List.pairwise_append.2 ⟨hf.later, hg.later, hcross⟩⟩
  rcases List.mem_append.1 h with h | h
  · exact hf.own f h
  · exact hg.own f h

end Scheduled

theorem undeclaredRead?_eq_none {owner subject : String} {vars params : List String} {e : Expr K}
    (h : undeclaredRead? owner subject vars params e = none) :
    (∀ v ∈ e.reads, v ∈ vars) ∧ ∀ k ∈ e.readsParams, k ∈ params := by
  unfold undeclaredRead? at h
  split at h
  · simp at h
  · rename_i hvars
    refine ⟨fun v hv => ?_, fun k hk => ?_⟩
    · simpa using List.find?_eq_none.1 hvars v (Expr.mem_varNames.2 hv)
    · simpa using List.find?_eq_none.1 (Option.map_eq_none_iff.1 h) k (Expr.mem_parNames.2 hk)

namespace FluxDraft

/-- Formulas without a fault read what is declared or computed before them. -/
theorem scheduled_of_readFault? {owner : String} {params vars : List String}
    {fs : List (String × Expr K)} (h : readFault? owner params vars fs = none)
    (hnew : (fs.map Prod.fst).Nodup) (hvars : ∀ v ∈ vars, v ∉ fs.map Prod.fst) :
    Scheduled fs ∧ ∀ f ∈ fs, ∀ v ∈ f.2.reads, v ∈ vars ∨ v ∈ fs.map Prod.fst := by
  induction fs generalizing vars with
  | nil => exact ⟨.nil, by simp⟩
  | cons f fs ih =>
    obtain ⟨output, e⟩ := f
    rw [readFault?] at h
    split at h
    · simp at h
    · rename_i hread
      have hreads := (undeclaredRead?_eq_none hread).1
      rw [List.map_cons, List.nodup_cons] at hnew
      have hvars' : ∀ v ∈ output :: vars, v ∉ fs.map Prod.fst := by
        intro v hv
        rcases List.mem_cons.1 hv with rfl | hv
        · exact hnew.1
        · exact fun hm => hvars v hv (List.mem_cons_of_mem _ hm)
      obtain ⟨hs, hall⟩ := ih h hnew.2 hvars'
      refine ⟨hs.cons (fun hr => hvars output (hreads output hr) List.mem_cons_self) ?_, ?_⟩
      · intro g hg
        have hmem : g.1 ∈ fs.map Prod.fst := List.mem_map_of_mem hg
        refine ⟨fun heq => hnew.1 (heq ▸ hmem), fun hr => ?_⟩
        exact hvars g.1 (hreads g.1 hr) (List.mem_cons_of_mem _ hmem)
      · intro g hg v hv
        rcases List.mem_cons.1 hg with rfl | hg
        · exact .inl (hreads v hv)
        · rcases hall g hg v hv with h | h
          · rcases List.mem_cons.1 h with rfl | h
            · exact .inr List.mem_cons_self
            · exact .inl h
          · exact .inr (List.mem_cons_of_mem _ h)

theorem readsParams_of_readFault? {owner : String} {params vars : List String}
    {fs : List (String × Expr K)} (h : readFault? owner params vars fs = none) :
    ∀ f ∈ fs, ∀ k ∈ f.2.readsParams, k ∈ params := by
  induction fs generalizing vars with
  | nil => exact fun f hf => nomatch hf
  | cons f fs ih =>
    obtain ⟨output, e⟩ := f
    rw [readFault?] at h
    split at h
    · simp at h
    · rename_i hread
      intro g hg
      rcases List.mem_cons.1 hg with rfl | hg
      · exact (undeclaredRead?_eq_none hread).2
      · exact ih h g hg

end FluxDraft

theorem Declaration.formulas_subset (f : Declaration K) {g : String × Expr K}
    (hg : g ∈ f.formulas) : g.1 ∈ f.outputs := by
  cases f with
  | flux f => exact (List.of_mem_zip (a := g.1) (b := g.2) hg).1
  | state d =>
    obtain rfl := List.mem_singleton.1 hg
    exact List.mem_singleton_self _
  | neural n => exact absurd hg List.not_mem_nil

theorem StateFlux.reads_subset (d : StateFlux K) : ∀ v ∈ d.expr.reads, v ∈ d.reads := by
  have h := List.findSome?_eq_none_iff.1 d.accepted
  simp only [List.mem_cons, List.not_mem_nil, or_false, forall_eq_or_imp, forall_eq, id] at h
  intro v hv
  have hmem := (undeclaredRead?_eq_none h.2.2).1 v hv
  unfold StateFlux.reads
  split
  · rename_i hstate
    rcases List.mem_cons.1 hmem with rfl | hmem
    · simpa [hv] using hstate
    · exact hmem
  · rcases List.mem_cons.1 hmem with rfl | hmem
    · simp
    · exact List.mem_append_left _ hmem

/-- What a flux without a fault guarantees of its outputs and of its formulas, if it has any. -/
theorem Flux.wellFormed (f : Flux K) :
    f.outputs.Nodup ∧ (∀ v ∈ f.inputs, v ∉ f.outputs) ∧
      (f.law = none → f.exprs.length = f.outputs.length ∧
        FluxDraft.readFault? f.owner f.params f.inputs (f.outputs.zip f.exprs) = none) ∧
      (f.law ≠ none → f.exprs = []) := by
  have h := List.findSome?_eq_none_iff.1 f.accepted
  simp only [List.mem_cons, List.not_mem_nil, or_false, forall_eq_or_imp, forall_eq, id] at h
  obtain ⟨-, houtputs, -, -, hboth, hlaw, hcount, hreads⟩ := h
  refine ⟨?_, ?_, fun hnone => ?_, fun hsome => ?_⟩
  · exact repeated?_eq_none.1 (Option.map_eq_none_iff.1 houtputs)
  · intro v hv ho
    unfold bothInputAndOutput? at hboth
    split at hboth
    · rename_i hfilter
      exact List.filter_eq_nil_iff.1 hfilter v hv (by simpa using ho)
    · simp at hboth
  · rw [hnone] at hcount hreads
    exact ⟨by simpa using hcount, by simpa using hreads⟩
  · have hisNone : f.law.isNone = false := by simpa using Option.ne_none_iff_isSome.1 hsome
    simpa [hisNone] using hlaw

namespace Declaration

/-- The formulas of a declaration are scheduled and read what the declaration reads or computes,
unless it reads its own output. -/
theorem scheduled_formulas (f : Declaration K) (hown : ∀ v ∈ f.reads, v ∉ f.outputs) :
    Scheduled f.formulas ∧ ∀ g ∈ f.formulas, ∀ v ∈ g.2.reads, v ∈ f.reads ∨ v ∈ f.outputs := by
  cases f with
  | flux f =>
    obtain ⟨hnodup, hboth, hformulas, hlaw⟩ := f.wellFormed
    cases hl : f.law with
    | none =>
      obtain ⟨hlen, hreads⟩ := hformulas hl
      have houtputs : (f.outputs.zip f.exprs).map Prod.fst = f.outputs :=
        List.map_fst_zip (by omega)
      obtain ⟨hs, hall⟩ := FluxDraft.scheduled_of_readFault? hreads (by rwa [houtputs])
        (by rwa [houtputs])
      rw [houtputs] at hall
      exact ⟨hs, hall⟩
    | some law =>
      have hnil : (flux f).formulas = [] := by
        simp [formulas, hlaw (by simp [hl])]
      rw [hnil]
      exact ⟨.nil, by simp⟩
  | state d =>
    have hreads := StateFlux.reads_subset d
    refine ⟨.cons (fun hr => ?_) (by simp) .nil, fun g hg v hv => .inl ?_⟩
    · exact hown _ (hreads _ hr) (List.mem_singleton_self _)
    · obtain rfl := List.mem_singleton.1 hg
      exact hreads v hv
  | neural n => exact ⟨.nil, by simp [formulas]⟩

theorem readsParams_subset (f : Declaration K) {g : String × Expr K} (hg : g ∈ f.formulas) :
    ∀ k ∈ g.2.readsParams, k ∈ f.params := by
  cases f with
  | flux f =>
    obtain ⟨-, -, hformulas, hlaw⟩ := f.wellFormed
    cases hl : f.law with
    | none => exact FluxDraft.readsParams_of_readFault? (hformulas hl).2 g hg
    | some law => simp [formulas, hlaw (by simp [hl])] at hg
  | state d =>
    have h := List.findSome?_eq_none_iff.1 d.accepted
    simp only [List.mem_cons, List.not_mem_nil, or_false, forall_eq_or_imp, forall_eq, id] at h
    obtain rfl := List.mem_singleton.1 hg
    exact (undeclaredRead?_eq_none h.2.2).2
  | neural n => exact absurd hg List.not_mem_nil

theorem networks_eq_nil {f : Declaration K} (h : f.lawName? = none) : f.networks = [] := by
  cases f with
  | neural n => simp [lawName?] at h
  | _ => rfl

theorem map_fst_formulas {f : Declaration K} (h : f.lawName? = none) :
    f.formulas.map Prod.fst = f.outputs := by
  cases f with
  | flux f =>
    have hlaw : f.law = none := by simpa [lawName?] using h
    exact List.map_fst_zip (Nat.le_of_eq (f.wellFormed.2.2.1 hlaw).1.symm)
  | state d => rfl
  | neural n => simp [lawName?] at h

theorem map_snd_formulas {f : Declaration K} (h : f.lawName? = none) :
    f.formulas.map Prod.snd = f.exprs := by
  cases f with
  | flux f =>
    have hlaw : f.law = none := by simpa [lawName?] using h
    exact List.map_snd_zip (Nat.le_of_eq (f.wellFormed.2.2.1 hlaw).1)
  | state d => rfl
  | neural n => simp [lawName?] at h

theorem scheduled {fs : List (Declaration K)} (h : Item.InOrder (fs.map item)) :
    Scheduled (fs.flatMap formulas) := by
  induction fs with
  | nil => exact .nil
  | cons f fs ih =>
    obtain ⟨honce, hown, hlater⟩ := h
    rw [List.map_cons, List.flatMap_cons, List.nodup_append] at honce
    rw [List.map_cons, List.pairwise_cons] at hlater
    obtain ⟨hs, hreads⟩ := f.scheduled_formulas (hown f.item List.mem_cons_self)
    have hrest := ih ⟨honce.2.1, fun a ha => hown a (List.mem_cons_of_mem _ ha), hlater.2⟩
    refine hs.append hrest fun a ha b hb => ?_
    obtain ⟨g, hg, hb⟩ := List.mem_flatMap.1 hb
    have hb : b.1 ∈ g.outputs := g.formulas_subset hb
    have hne (v : String) (hv : v ∈ f.outputs) : v ≠ b.1 :=
      honce.2.2 v hv b.1 (List.mem_flatMap.2 ⟨g.item, List.mem_map_of_mem hg, hb⟩)
    refine ⟨(hne a.1 (f.formulas_subset ha)).symm, fun hr => ?_⟩
    rcases hreads a ha b.1 hr with h | h
    · exact hlater.1 g.item (List.mem_map_of_mem hg) b.1 h hb
    · exact hne b.1 h rfl

end Declaration

namespace ProgramDraft

theorem unavailable?_cons {known : List String} {f : Declaration K} {fs : List (Declaration K)} :
    unavailable? known (f :: fs) = none ↔
      (∀ v ∈ f.reads, v ∈ known) ∧ unavailable? (f.outputs ++ known) fs = none := by
  rw [unavailable?]
  cases h : f.reads.find? (!known.contains ·) with
  | none =>
    have hall : ∀ v ∈ f.reads, v ∈ known := by simpa using h
    exact ⟨fun hrest => ⟨hall, hrest⟩, fun hrest => hrest.2⟩
  | some v =>
    have hv := List.find?_some h
    simp only [reduceCtorEq, false_iff, not_and]
    intro hall
    simp [hall v (List.mem_of_find?_eq_some h)] at hv

theorem unavailable?_of_subset {known : List String} {fs : List (Declaration K)}
    (h : ∀ f ∈ fs, ∀ v ∈ f.reads, v ∈ known) : unavailable? known fs = none := by
  induction fs generalizing known with
  | nil => rfl
  | cons f fs ih =>
    refine unavailable?_cons.2 ⟨h f List.mem_cons_self, ih fun g hg v hv => ?_⟩
    exact List.mem_append_right _ (h g (List.mem_cons_of_mem f hg) v hv)

/-- Declarations after available ones may read all that is known then. -/
theorem unavailable?_append {known : List String} {fs gs : List (Declaration K)}
    (hf : unavailable? known fs = none)
    (hg : ∀ g ∈ gs, ∀ v ∈ g.reads, v ∈ known ∨ v ∈ fs.flatMap Declaration.outputs) :
    unavailable? known (fs ++ gs) = none := by
  induction fs generalizing known with
  | nil => exact unavailable?_of_subset fun g h v hv => by simpa using hg g h v hv
  | cons f fs ih =>
    obtain ⟨hreads, hf⟩ := unavailable?_cons.1 hf
    refine unavailable?_cons.2 ⟨hreads, ih hf fun g h v hv => ?_⟩
    rw [List.mem_append]
    rcases hg g h v hv with hk | hk
    · exact .inl (.inr hk)
    · rw [List.flatMap_cons, List.mem_append] at hk
      rcases hk with hk | hk
      · exact .inl (.inl hk)
      · exact .inr hk

theorem reads_of_unavailable? {known : List String} {fs : List (Declaration K)}
    (h : unavailable? known fs = none) {f : Declaration K} (hf : f ∈ fs) {v : String}
    (hv : v ∈ f.reads) : v ∈ known ∨ v ∈ fs.flatMap Declaration.outputs := by
  induction fs generalizing known with
  | nil => exact nomatch hf
  | cons g fs ih =>
    obtain ⟨hreads, hrest⟩ := unavailable?_cons.1 h
    rw [List.flatMap_cons, List.mem_append]
    rcases List.mem_cons.1 hf with rfl | hf
    · exact .inl (hreads v hv)
    · rcases ih hrest hf with hk | hk
      · rcases List.mem_append.1 hk with hk | hk
        · exact .inr (.inl hk)
        · exact .inl hk
      · exact .inr (.inr hk)

theorem unavailable?_mono {known known' : List String} {fs : List (Declaration K)}
    (h : unavailable? known fs = none) (hsub : known ⊆ known') :
    unavailable? known' fs = none := by
  induction fs generalizing known known' with
  | nil => rfl
  | cons f fs ih =>
    obtain ⟨hreads, hrest⟩ := unavailable?_cons.1 h
    exact unavailable?_cons.2 ⟨fun v hv => hsub (hreads v hv),
      ih hrest (List.append_subset.2 ⟨List.subset_append_left _ _,
        List.subset_append_of_subset_right _ hsub⟩)⟩

theorem unavailable?_left {known : List String} {fs gs : List (Declaration K)}
    (h : unavailable? known (fs ++ gs) = none) :
    unavailable? known fs = none := by
  induction fs generalizing known with
  | nil => rfl
  | cons f fs ih =>
    obtain ⟨hreads, hrest⟩ := unavailable?_cons.1 h
    exact unavailable?_cons.2 ⟨hreads, ih hrest⟩

theorem unavailable?_right {known : List String} {fs gs : List (Declaration K)}
    (h : unavailable? known (fs ++ gs) = none) :
    unavailable? (known ++ fs.flatMap Declaration.outputs) gs = none := by
  induction fs generalizing known with
  | nil => exact unavailable?_mono h (by simp)
  | cons f fs ih =>
    refine unavailable?_mono (ih (unavailable?_cons.1 h).2) ?_
    simp only [List.subset_def, List.mem_append, List.flatMap_cons]
    tauto

/-- Declarations in order are available if all they read is known or produced among them. -/
theorem unavailable?_of_inOrder {known : List String} {fs : List (Declaration K)}
    (h : Item.InOrder (fs.map Declaration.item))
    (hreads : ∀ f ∈ fs, ∀ v ∈ f.reads, v ∈ known ∨ v ∈ fs.flatMap Declaration.outputs) :
    unavailable? known fs = none := by
  induction fs generalizing known with
  | nil => rfl
  | cons f fs ih =>
    obtain ⟨honce, hown, hlater⟩ := h
    rw [List.map_cons, List.flatMap_cons, List.nodup_append] at honce
    rw [List.map_cons, List.pairwise_cons] at hlater
    have hrest : Item.InOrder (fs.map Declaration.item) :=
      ⟨honce.2.1, fun a ha => hown a (List.mem_cons_of_mem _ ha), hlater.2⟩
    refine unavailable?_cons.2 ⟨fun v hv => ?_, ih hrest fun g hg v hv => ?_⟩
    · refine (hreads f List.mem_cons_self v hv).resolve_right fun hp => ?_
      obtain ⟨g, hg, hpg⟩ := List.mem_flatMap.1 hp
      rcases List.mem_cons.1 hg with rfl | hg
      · exact hown g.item List.mem_cons_self v hv hpg
      · exact hlater.1 g.item (List.mem_map_of_mem hg) v hv hpg
    · rw [List.mem_append]
      rcases hreads g (List.mem_cons_of_mem f hg) v hv with hk | hk
      · exact .inl (.inr hk)
      · rw [List.flatMap_cons, List.mem_append] at hk
        rcases hk with hk | hk
        · exact .inl (.inl hk)
        · exact .inr hk

end ProgramDraft

namespace Program

variable {backend : Backend} {fluxes : List (Declaration K)} {inputs outputs : List String}

theorem draft_of_compile {p : Program K} (h : compile backend fluxes inputs outputs = .ok p) :
    p.toProgramDraft = ⟨backend, fluxes, inputs, outputs⟩ := by
  unfold compile at h
  dsimp only at h
  split at h
  · rw [← Except.ok.inj h]
  · simp [misconfigured] at h

/-- A program compiles to itself. -/
theorem compile_self (p : Program K) : compile p.backend p.fluxes p.inputs p.outputs = .ok p := by
  unfold compile
  dsimp only
  split
  · rfl
  · rename_i cause hcause
    exact absurd (p.accepted.symm.trans hcause) (Option.some_ne_none cause).symm

theorem compile_exists (h : ProgramDraft.unavailable? inputs fluxes = none)
    (houtputs : ∀ o ∈ outputs, o ∈ inputs ∨ o ∈ fluxes.flatMap Declaration.outputs)
    (hlaws : backend = .symbolic → ∀ f ∈ fluxes, f.lawName? = none) :
    ∃ p, compile backend fluxes inputs outputs = .ok p ∧
      p.toProgramDraft = ⟨backend, fluxes, inputs, outputs⟩ := by
  have hsymbolic : ProgramDraft.notSymbolic? ⟨backend, fluxes, inputs, outputs⟩ = none := by
    unfold ProgramDraft.notSymbolic?
    split
    · rename_i hbackend
      rw [Option.map_eq_none_iff, List.find?_eq_none]
      exact fun f hf => by simp [hlaws hbackend f hf]
    · rfl
  have hfault : ProgramDraft.fault? ⟨backend, fluxes, inputs, outputs⟩ = none := by
    have hknown (o : String) (ho : o ∈ outputs) :
        o ∈ ProgramDraft.known ⟨backend, fluxes, inputs, outputs⟩ :=
      List.mem_append.2 (houtputs o ho)
    simpa [ProgramDraft.fault?, h, hsymbolic] using hknown
  let p : Program K := ⟨⟨backend, fluxes, inputs, outputs⟩, hfault⟩
  exact ⟨p, compile_self p, rfl⟩

end Program

end Catchment
