import Catchment.Proofs.RearrangedRates

/-!
# Returned names

Whatever a component returns, it returns under names: there are rows by name that it returns when it
is run over them. Of several input rows under one name a model reads the first.
-/
namespace Catchment

variable {K : Type} [Scalar K] {n t : Nat} {args : RunArguments K} {s : Settings K}

/-- Parts that run by name find the same rows in tables with the same rows under every name. -/
theorem runByName_congr {own : String → Settings K} {parts : List (Component K)}
    {table table' : RowTable n t K} (h : ∀ v, table'.lookup v = table.lookup v)
    {result : RowTable n t K × List String} (hrun : runByName args own parts table = .ok result) :
    ∃ found, runByName args own parts table' = .ok (found, result.2) ∧
      ∀ v, found.lookup v = result.1.lookup v := by
  induction parts generalizing table table' result with
  | nil =>
    obtain rfl := Except.ok.inj hrun
    exact ⟨table', rfl, h⟩
  | cons c rest ih =>
    obtain ⟨inputs, hinputs, hrun⟩ := bind_eq_ok.1 hrun
    obtain ⟨out, hout, hrun⟩ := bind_eq_ok.1 hrun
    obtain ⟨result', hrest, hrun⟩ := bind_eq_ok.1 hrun
    obtain rfl := Except.ok.inj hrun
    have hselect : table'.select c.signature.inputs = .ok inputs := by
      rw [← hinputs]
      exact mapM_congr fun v _ => by rw [h v]
    have hsame (v : String) : (table' ++ c.rowNames.zip out.rows).lookup v =
        (table ++ c.rowNames.zip out.rows).lookup v := by
      rw [List.lookup_append, List.lookup_append, h v]
    obtain ⟨found, hfound, hlookup⟩ := ih hsame hrest
    exact ⟨found, bind_eq_ok.2 ⟨inputs, hselect, bind_eq_ok.2 ⟨out, hout,
      bind_eq_ok.2 ⟨_, hfound, rfl⟩⟩⟩, hlookup⟩

/-- The rows under the names of inputs, the first one if there are several. -/
def NamesRows (names : List String) (rows : List (Grid [n, t] K)) (x : String → Grid [n, t] K) :
    Prop :=
  ∀ v ∈ names, (names.zip rows).lookup v = some (x v)

omit [Scalar K] in
theorem NamesRows.exists {names : List String} {rows : List (Grid [n, t] K)}
    (h : rows.length = names.length) (x : String → Grid [n, t] K) :
    ∃ y, NamesRows names rows y ∧ ∀ v, v ∉ names → y v = x v := by
  refine ⟨fun v => ((names.zip rows).lookup v).getD (x v), fun v hv => ?_, fun v hv => ?_⟩
  · obtain ⟨row, hrow⟩ : ∃ row, (names.zip rows).lookup v = some row :=
      lookup_exists (by rwa [List.map_fst_zip (Nat.le_of_eq h.symm)])
    simp only [hrow, Option.getD_some]
  · simp only [lookup_zip_of_notMem rows hv, Option.getD_none]

omit [Scalar K] in
theorem NamesRows.eq_map {names : List String} (hn : names.Nodup) {rows : List (Grid [n, t] K)}
    (hlen : rows.length = names.length) {x : String → Grid [n, t] K} (h : NamesRows names rows x) :
    rows = names.map x := by
  refine List.ext_getElem (by simpa using hlen) fun k hk hk' => ?_
  rw [List.length_map] at hk'
  have hlookup := h names[k] (List.getElem_mem hk')
  rw [lookup_zip_getElem hn hk' hk] at hlookup
  rw [List.getElem_map]
  exact Option.some.inj hlookup

namespace Composition

variable {d : Composition K} {ordered : List (Component K)}

/-- A model reads the first row under each of its inputs. -/
theorem compute_wiring_first (hparts : ∀ c ∈ ordered, c.Composed) {rows : List (Grid [n, t] K)}
    (hlen : rows.length = (d.wholeSignature ordered).inputs.length)
    {x : String → Grid [n, t] K} (hx : NamesRows (d.wholeSignature ordered).inputs rows x)
    {out : Outcome n t K}
    (hout : (Component.model (d.wiring ordered) ordered).compute args s rows = .ok out) :
    (Component.model (d.wiring ordered) ordered).compute args s
      ((d.wholeSignature ordered).inputs.map x) = .ok out := by
  obtain ⟨table, htable, hselect⟩ := (compute_wiring_eq_ok hparts hlen).1 hout
  have hlookup (v : String) : ((d.wholeSignature ordered).inputs.zip
      ((d.wholeSignature ordered).inputs.map x)).lookup v =
        ((d.wholeSignature ordered).inputs.zip rows).lookup v := by
    by_cases hv : v ∈ (d.wholeSignature ordered).inputs
    · rw [hx v hv, ← RowTable.named_eq_zip]
      exact lookup_map_self x hv
    · rw [lookup_zip_of_notMem _ hv, lookup_zip_of_notMem _ hv]
  obtain ⟨found, hfound, hsame⟩ := runByName_congr hlookup htable
  refine (compute_wiring_eq_ok hparts (List.length_map _)).2 ⟨found, hfound, ?_⟩
  rw [← hselect]
  exact mapM_congr fun v _ => by rw [hsame v]

end Composition

namespace Component

variable {c : Component K}

/-- A component that returns for some rows returns for the first ones under their names. -/
theorem Composed.compute_first (hc : c.Composed) {rows : List (Grid [n, t] K)}
    (hlen : rows.length = c.signature.inputs.length) {x : String → Grid [n, t] K}
    (hx : NamesRows c.signature.inputs rows x) {out : Outcome n t K}
    (hout : c.compute args s rows = .ok out) :
    c.compute args s (c.signature.inputs.map x) = .ok out := by
  have hunit (hn : c.signature.inputs.Nodup) :
      c.compute args s (c.signature.inputs.map x) = .ok out := by
    rwa [← hx.eq_map hn hlen]
  cases hc with
  | bucket b => exact hunit (Signature.nodup_inputs_ofDeclarations ..)
  | route r => exact hunit (Signature.nodup_inputs_ofDeclarations ..)
  | hydrograph u => exact hunit (List.nodup_singleton u.input)
  | @model d _ hparts built =>
    obtain ⟨-, ordered, hordered, -, rfl⟩ := Composition.build_eq_ok.1 built
    obtain ⟨hperm, -⟩ := Composition.order_eq_ok hordered
    have hinputs : (Component.model (d.wiring ordered) ordered).signature.inputs =
        (d.wholeSignature ordered).inputs := Composition.signature_wiring_inputs
    rw [hinputs] at hlen hx ⊢
    exact Composition.compute_wiring_first (fun p hp => hparts p (hperm.mem_iff.1 hp)) hlen hx hout

/-- Rows that a component returns for rows by name are rows by name, the inputs among them. -/
theorem Composed.exists_returns (hc : c.Composed) {x : String → Grid [n, t] K}
    {out : Outcome n t K} (hout : c.compute args s (c.signature.inputs.map x) = .ok out) :
    ∃ y : String → Grid [n, t] K, (∀ v ∈ c.signature.inputs, y v = x v) ∧ c.Returns args s y ∧
      out = ⟨c.rowNames.map y, c.warningsOver args s y⟩ := by
  have hnamed : ∃ y : String → Grid [n, t] K, out.rows = c.rowNames.map y ∧
      ∀ v ∈ c.signature.inputs, y v = x v := by
    cases hc with
    | bucket b =>
      exact (Composed.bucket b).exists_named b.rowNames_nodup (fun v => b.inputs_notMem) hout
    | route r =>
      exact (Composed.route r).exists_named r.rowNames_nodup (fun v => r.inputs_notMem) hout
    | hydrograph u =>
      refine (Composed.hydrograph u).exists_named (List.nodup_singleton u.output) ?_ hout
      rintro v hv hv'
      exact u.changesName ((List.mem_singleton.1 hv).symm.trans (List.mem_singleton.1 hv'))
    | @model d _ hparts built =>
      obtain ⟨-, ordered, hordered, hfault, rfl⟩ := Composition.build_eq_ok.1 built
      obtain ⟨hperm, horder⟩ := Composition.order_eq_ok hordered
      have hinputs : (Component.model (d.wiring ordered) ordered).signature.inputs =
          (d.wholeSignature ordered).inputs := Composition.signature_wiring_inputs
      rw [hinputs] at hout ⊢
      obtain ⟨y, hy, -, rfl⟩ := (Composition.compute_wiring_named
        (fun p hp => hparts p (hperm.mem_iff.1 hp)) horder hfault).1 hout
      exact ⟨y, rfl, hy⟩
  obtain ⟨y, hrows, hyx⟩ := hnamed
  have hread : c.signature.inputs.map y = c.signature.inputs.map x := List.map_congr_left hyx
  have hreturns : c.compute args s (c.signature.inputs.map y) =
      .ok ⟨c.rowNames.map y, out.warnings⟩ := by
    rw [hread, hout, ← hrows]
  refine ⟨y, hyx, returns_iff.2 ⟨_, hreturns⟩, ?_⟩
  rw [warningsOver, hreturns, ← hrows]

/-- A run that returns has rows by name that the component returns. -/
theorem Composed.run_returns (hc : c.Composed) {input : Nested K} {r : RunResult K}
    (hrun : c.run input args s = .ok r) :
    ∃ (given : InputRows K) (y : String → Grid [given.nodes, given.times] K),
      given.Reads input ∧ given.rows.length = c.signature.inputs.length ∧
        NamesRows c.signature.inputs given.rows y ∧ c.Returns args s y ∧
        r = given.result (c.rowNames.map y) (c.warningsOver args s y) := by
  obtain ⟨given, hreads, hlen, out, hout, rfl⟩ := run_eq_ok.1 hrun
  obtain ⟨x, hx, -⟩ := NamesRows.exists hlen fun _ => Grid.replicate Scalar.zero
  obtain ⟨y, hyx, hreturns, rfl⟩ := hc.exists_returns (hc.compute_first hlen hx hout)
  exact ⟨given, y, hreads, hlen, fun v hv => (hx v hv).trans (congrArg some (hyx v hv).symm),
    hreturns, rfl⟩

end Component

end Catchment
