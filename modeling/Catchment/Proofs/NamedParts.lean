import Catchment.Proofs.NamedRuns
import Catchment.Proofs.WiringByName

/-!
# Parts by name

Parts that run one after the other on a table of rows by name return rows by name, each its own on the
rows of the others. Rows that every part returns in this way are also what the parts return one after
the other, in any order in which each part finds its inputs.
-/
namespace Catchment

variable {K : Type} {n t : Nat}

def RowTable.named (names : List String) (y : String → Grid [n, t] K) : RowTable n t K :=
  names.map fun v => (v, y v)

theorem RowTable.named_eq_zip (names : List String) (y : String → Grid [n, t] K) :
    named names y = names.zip (names.map y) := List.map_prod_left_eq_zip

theorem RowTable.named_append {known names : List String} {x y : String → Grid [n, t] K}
    (h : ∀ v ∈ known, y v = x v) :
    named known x ++ names.zip (names.map y) = named (known ++ names) y := by
  have hknown : named known x = named known y := List.map_congr_left fun v hv => by rw [h v hv]
  rw [hknown, ← named_eq_zip, named, named, named, List.map_append]

theorem RowTable.select_named {known names : List String} {y : String → Grid [n, t] K}
    (h : ∀ v ∈ names, v ∈ known) : (named known y).select names = .ok (names.map y) := by
  rw [select, mapM_eq_ok_map]
  exact fun v hv => orFault_eq_ok.2 (lookup_map_self y (h v hv))

variable [Scalar K] {args : RunArguments K} {s : Settings K}

namespace Component

/-- The warnings of a component over rows by name. -/
def warningsOver (args : RunArguments K) (s : Settings K) (y : String → Grid [n, t] K)
    (c : Component K) : List String :=
  match c.compute args s (c.signature.inputs.map y) with
  | .ok out => out.warnings
  | .error _ => []

def Returns (args : RunArguments K) (s : Settings K) (y : String → Grid [n, t] K)
    (c : Component K) : Prop :=
  c.compute args s (c.signature.inputs.map y) = .ok ⟨c.rowNames.map y, c.warningsOver args s y⟩

theorem returns_iff {y : String → Grid [n, t] K} {c : Component K} :
    c.Returns args s y ↔ ∃ warnings,
      c.compute args s (c.signature.inputs.map y) = .ok ⟨c.rowNames.map y, warnings⟩ := by
  refine ⟨fun h => ⟨_, h⟩, fun ⟨warnings, h⟩ => ?_⟩
  rw [Returns, warningsOver, h]

variable {own : String → Settings K} {parts : List (Component K)} {known : List String}

/-- Parts with different row names return rows by name, each on the rows of the others. -/
theorem returns_of_runByName (hparts : ∀ c ∈ parts, c.Composed) {x : String → Grid [n, t] K}
    (hnew : (parts.flatMap rowNames).Nodup) (hold : ∀ v ∈ known, v ∉ parts.flatMap rowNames)
    (hknown : Composition.unresolved? known parts = none) {result : RowTable n t K × List String}
    (h : runByName args own parts (.named known x) = .ok result) :
    ∃ y : String → Grid [n, t] K, (∀ v ∈ known, y v = x v) ∧
      result = (.named (known ++ parts.flatMap rowNames) y,
        parts.flatMap fun c => c.warningsOver args (own c.name) y) ∧
      ∀ c ∈ parts, c.Returns args (own c.name) y := by
  induction parts generalizing known x result with
  | nil =>
    refine ⟨x, fun _ _ => rfl, ?_, fun c hc => nomatch hc⟩
    rw [List.flatMap_nil, List.append_nil]
    exact (Except.ok.inj h).symm
  | cons c parts ih =>
    obtain ⟨hinputs, hknown⟩ := Composition.unresolved?_cons.1 hknown
    obtain ⟨rows, hrows, h⟩ := bind_eq_ok.1 h
    obtain ⟨out, hout, h⟩ := bind_eq_ok.1 h
    obtain ⟨result', hrest, h⟩ := bind_eq_ok.1 h
    obtain rfl := Except.ok.inj h
    obtain rfl := Except.ok.inj ((RowTable.select_named hinputs).symm.trans hrows)
    rw [List.flatMap_cons] at hnew hold
    obtain ⟨hown, hnew, hdisjoint⟩ := List.nodup_append.1 hnew
    obtain ⟨z, hz, hzx⟩ := exists_rows_by_name hown
      ((hparts c List.mem_cons_self).length_compute hout) x
    have hzx : ∀ v ∈ known, z v = x v := fun v hv =>
      hzx v fun hvc => hold v hv (List.mem_append_left _ hvc)
    have htable : RowTable.named known x ++ c.rowNames.zip (c.rowNames.map z) =
        .named (known ++ c.rowNames) z := RowTable.named_append hzx
    rw [hz, htable] at hrest
    obtain ⟨y, hyz, rfl, hy⟩ := ih (fun p hp => hparts p (List.mem_cons_of_mem c hp)) hnew
      (fun v hv hvp => (List.mem_append.1 hv).elim
        (fun hv => hold v hv (List.mem_append_right _ hvp))
        fun hv => hdisjoint v hv v hvp rfl) hknown hrest
    have hyx : ∀ v ∈ known, y v = x v := fun v hv =>
      (hyz v (List.mem_append_left _ hv)).trans (hzx v hv)
    have hread : c.signature.inputs.map y = c.signature.inputs.map x :=
      List.map_congr_left fun v hv => hyx v (hinputs v hv)
    have hmade : c.rowNames.map y = c.rowNames.map z :=
      List.map_congr_left fun v hv => hyz v (List.mem_append_right _ hv)
    have hreturns : c.compute args (own c.name) (c.signature.inputs.map y) =
        .ok ⟨c.rowNames.map y, out.warnings⟩ := by
      rw [hread, hmade, ← hz]
      exact hout
    have hwarnings : c.warningsOver args (own c.name) y = out.warnings := by
      rw [warningsOver, hreturns]
    refine ⟨y, hyx, ?_, List.forall_mem_cons.2 ⟨returns_iff.2 ⟨_, hreturns⟩, hy⟩⟩
    rw [List.flatMap_cons, List.flatMap_cons, ← List.append_assoc, hwarnings]

/-- Rows by name that every part returns are what the parts return one after the other. -/
theorem runByName_of_returns {y : String → Grid [n, t] K}
    (hknown : Composition.unresolved? known parts = none)
    (h : ∀ c ∈ parts, c.Returns args (own c.name) y) :
    runByName args own parts (.named known y) = .ok (.named (known ++ parts.flatMap rowNames) y,
      parts.flatMap fun c => c.warningsOver args (own c.name) y) := by
  induction parts generalizing known with
  | nil =>
    rw [List.flatMap_nil, List.append_nil]
    rfl
  | cons c parts ih =>
    obtain ⟨hinputs, hknown⟩ := Composition.unresolved?_cons.1 hknown
    have hrest := ih hknown fun p hp => h p (List.mem_cons_of_mem c hp)
    have htable : RowTable.named known y ++ c.rowNames.zip (c.rowNames.map y) =
        .named (known ++ c.rowNames) y := RowTable.named_append fun _ _ => rfl
    have hstep := (congrArg (runByName args own parts) htable).trans hrest
    rw [List.flatMap_cons, List.flatMap_cons, ← List.append_assoc known, runByName,
      RowTable.select_named hinputs, ok_bind]
    exact bind_eq_ok.2 ⟨_, h c List.mem_cons_self, bind_eq_ok.2 ⟨_, hstep, rfl⟩⟩

end Component

end Catchment
