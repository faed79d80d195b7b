import Catchment.Proofs.AcceptedRuns

/-!
# Checks of arguments

A component that returns a result has accepted its arguments, so the checks that a model makes ahead
of its parts refuse nothing that the parts would accept.
-/
namespace Catchment

variable {K : Type} {n t : Nat} {args : RunArguments K}

theorem RunArguments.missing?_eq_none {sig : Signature} :
    args.missing? sig = none ↔ ∀ v ∈ sig.params ++ sig.networks, (args.params.lookup v).isSome := by
  have hfind (names : List String) :
      names.find? (fun v => (args.params.lookup v).isNone) = none ↔
        ∀ v ∈ names, (args.params.lookup v).isSome := by
    simp only [List.find?_eq_none, Option.isNone_iff_eq_none, Option.isSome_iff_ne_none, ne_eq]
  simp only [List.mem_append, or_imp, forall_and, ← hfind]
  unfold missing?
  dsimp only
  split
  · rename_i p hp
    simp [hp]
  · rename_i hp
    rw [Option.map_eq_none_iff]
    exact ⟨fun h => ⟨hp, h⟩, fun h => h.2⟩

variable [Scalar K]

theorem RunData.missing?_of_prepare {sig : Signature} {s : Settings K} {d : RunData n t K}
    (h : prepare sig n t args s = .ok d) : args.missing? sig = none := by
  obtain ⟨times, -, h⟩ := bind_eq_ok.1 h
  obtain ⟨params, hparams, h⟩ := bind_eq_ok.1 h
  obtain ⟨nodeParams, -, h⟩ := bind_eq_ok.1 h
  obtain ⟨weights, hweights, -⟩ := bind_eq_ok.1 h
  refine RunArguments.missing?_eq_none.2 fun v hv => ?_
  rcases List.mem_append.1 hv with hv | hv
  · unfold expandParams at hparams
    split at hparams
    · simp [misconfigured] at hparams
    · rename_i hmissing
      have := List.filter_eq_nil_iff.1 hmissing v hv
      simpa [Option.isSome_iff_ne_none] using this
  · obtain ⟨w, -, hw⟩ := exists_of_mapM_eq_ok hweights hv
    cases hlookup : args.params.lookup v with
    | none => simp [hlookup, misconfigured] at hw
    | some given => rfl

namespace Component

theorem compute_model_eq_ok {w : Wiring K} {parts : List (Component K)} {s : Settings K}
    {rows : List (Grid [n, t] K)} {out : Outcome n t K} :
    (model w parts).compute args s rows = .ok out ↔
      args.missing? w.signature = none ∧ checkAll n t args w parts s = .ok () ∧
        ∃ table, computeAll args w parts w.inputPlaces s rows = .ok (table, out.warnings) ∧
          rowsAt table w.outputPlaces = .ok out.rows := by
  rw [compute]
  cases args.missing? w.signature with
  | some cause => simp [misconfigured]
  | none =>
    simp only [true_and, bind_eq_ok, pure_eq_ok, Except.ok.injEq, Prod.exists]
    constructor
    · rintro ⟨_, hcheck, table, warnings, htable, rows, hrows, rfl⟩
      exact ⟨hcheck, table, htable, hrows⟩
    · rintro ⟨hcheck, table, htable, hrows⟩
      exact ⟨(), hcheck, table, out.warnings, htable, out.rows, hrows, rfl⟩

/-- A component that returns a result has its parameters and weights. -/
theorem missing?_of_compute {c : Component K} {s : Settings K} {rows : List (Grid [n, t] K)}
    {out : Outcome n t K} (h : c.compute args s rows = .ok out) :
    args.missing? c.signature = none := by
  cases c with
  | bucket b =>
    obtain ⟨d, hd, -⟩ := bind_eq_ok.1 h
    exact RunData.missing?_of_prepare hd
  | route r =>
    obtain ⟨d, hd, -⟩ := bind_eq_ok.1 h
    exact RunData.missing?_of_prepare (prepareFor_route hd).2
  | hydrograph u =>
    obtain ⟨d, hd, -⟩ := bind_eq_ok.1 h
    exact RunData.missing?_of_prepare hd
  | model w parts => exact (compute_model_eq_ok.1 h).1

/-- A component that returns a result would have been accepted. -/
theorem check_of_compute {c : Component K} {s : Settings K} {rows : List (Grid [n, t] K)}
    {out : Outcome n t K} (h : c.compute args s rows = .ok out) :
    check n t args c s = .ok () := by
  cases c with
  | bucket b =>
    obtain ⟨d, hd, -⟩ := bind_eq_ok.1 h
    simp [check, hd]
  | route r =>
    obtain ⟨d, hd, -⟩ := bind_eq_ok.1 h
    simp [check, hd]
  | hydrograph u =>
    obtain ⟨d, hd, -⟩ := bind_eq_ok.1 h
    simp [check, hd]
  | model w parts => exact (compute_model_eq_ok.1 h).2.1

end Component

end Catchment
