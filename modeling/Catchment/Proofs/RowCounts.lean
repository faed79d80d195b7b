import Catchment.Proofs.AcceptedRuns
import Catchment.Proofs.NodeSteps
import Catchment.Proofs.ScheduledDeclarations

/-!
# Counts of rows

A component that is composed of others by name returns one row for every one of its row names.
-/
namespace Catchment

variable {K : Type} [Scalar K] {n t : Nat} {d : RunData n t K} {rows : List (Grid [n, t] K)}
  {out : Outcome n t K}

theorem Bucket.length_run {b : Bucket K} (hinit : d.initial.length = b.states.length)
    (h : b.run d rows = .ok out) : out.rows.length = (b.states ++ b.outputs).length := by
  obtain ⟨p, hp, h⟩ := bind_eq_ok.1 h
  have houtputs : p.outputs = b.outputs :=
    congrArg ProgramDraft.outputs (Program.draft_of_compile hp)
  rw [List.length_append]
  split at h
  · rename_i hempty
    obtain ⟨outs, houts, h⟩ := bind_eq_ok.1 h
    rw [← Except.ok.inj h, Program.length_run houts, houtputs, List.isEmpty_iff.1 hempty]
    simp
  · obtain ⟨q, hq, h⟩ := bind_eq_ok.1 h
    obtain ⟨f, hf, h⟩ := bind_eq_ok.1 h
    obtain ⟨path, hpath, h⟩ := bind_eq_ok.1 h
    obtain ⟨outs, houts, h⟩ := bind_eq_ok.1 h
    rw [← Except.ok.inj h, List.length_append, length_stateRows, hinit, Program.length_run houts,
      houtputs]

theorem Route.length_run {r : Route K} (hinit : d.initial.length = r.states.length)
    (h : r.run d rows = .ok out) : out.rows.length = (r.states ++ r.outputs).length := by
  unfold run at h
  split at h
  · obtain ⟨p, hp, h⟩ := bind_eq_ok.1 h
    obtain ⟨q, hq, h⟩ := bind_eq_ok.1 h
    obtain ⟨f, hf, h⟩ := bind_eq_ok.1 h
    obtain ⟨path, hpath, h⟩ := bind_eq_ok.1 h
    obtain ⟨fluxes, hfluxes, h⟩ := bind_eq_ok.1 h
    obtain ⟨inflow, hinflow, h⟩ := bind_eq_ok.1 h
    have houtputs : p.outputs = r.fluxOutputs :=
      congrArg ProgramDraft.outputs (Program.draft_of_compile hp)
    rw [← Except.ok.inj h]
    simp [length_stateRows, hinit, Program.length_run hfluxes, houtputs, RouteDraft.outputs]
  · simp [mismatched] at h

theorem UnitHydrograph.length_run {u : UnitHydrograph K} (h : u.run d rows = .ok out) :
    out.rows.length = 1 := by
  obtain ⟨q, -, h⟩ := bind_eq_ok.1 h
  obtain ⟨lags, -, h⟩ := bind_eq_ok.1 h
  obtain ⟨w, -, h⟩ := bind_eq_ok.1 h
  split at h
  · rw [← Except.ok.inj h]
    rfl
  · unfold buffered at h
    split at h
    · simp [misconfigured] at h
    · split at h
      · rw [← Except.ok.inj h]
        rfl
      · obtain ⟨f, -, h⟩ := bind_eq_ok.1 h
        obtain ⟨path, -, h⟩ := bind_eq_ok.1 h
        rw [← Except.ok.inj h]
        rfl

end Catchment
