import Catchment.DoubleScalar
import Catchment.Run
import Catchment.Proofs.ArgumentChecks
import Catchment.Proofs.ComposedModels
import Catchment.Proofs.NamedRows
import Catchment.Proofs.RowCounts

/-!
# Wiring by name

The places that a model resolves once lead to the rows that a search by name finds in each run: a
model returns what its parts return when they are run one after the other, each on the rows that
stand under the names of its inputs.
-/
namespace Catchment

variable {K : Type} {n t : Nat}

/-- Rows over nodes and times under their names; the first row of a name counts. -/
abbrev RowTable (n t : Nat) (K : Type) := List (String × Grid [n, t] K)

def RowTable.select (table : RowTable n t K) (names : List String) :
    Except Fault (List (Grid [n, t] K)) :=
  names.mapM fun v => Values.orFault .position (table.lookup v)

theorem RowTable.length_select {table : RowTable n t K} {names : List String}
    {rows : List (Grid [n, t] K)} (h : table.select names = .ok rows) :
    rows.length = names.length := (mapM_eq_ok.1 h).length_eq.symm

theorem lookup_zip_eq_getElem? {α : Type} {names : List String} {xs : List α}
    (h : xs.length = names.length) (v : String) :
    (names.zip xs).lookup v = xs[names.idxOf v]? := by
  induction names generalizing xs with
  | nil =>
    rw [List.length_eq_zero_iff.1 h]
    rfl
  | cons w names ih => cases xs with
    | nil => simp at h
    | cons x xs =>
      rw [List.zip_cons_cons, List.lookup_cons, List.idxOf_cons]
      by_cases hv : v = w
      · subst hv
        simp
      · rw [beq_eq_false_iff_ne.2 hv, beq_eq_false_iff_ne.2 (Ne.symm hv)]
        simpa using ih (by simpa using h)

/-- The rows at the places of names are the rows that are found by name. -/
theorem rowsAt_eq_select {known : List String} {rows : List (Grid [n, t] K)}
    (h : rows.length = known.length) (names : List String) :
    rowsAt rows (names.map (known.idxOf ·)) = RowTable.select (known.zip rows) names := by
  rw [rowsAt, RowTable.select, List.mapM_map]
  simp only [lookup_zip_eq_getElem? h]
  rfl

theorem RowTable.select_select {table : RowTable n t K} {names selected : List String}
    {rows : List (Grid [n, t] K)} (h : table.select names = .ok rows)
    (hsub : ∀ v ∈ selected, v ∈ names) :
    RowTable.select (names.zip rows) selected = table.select selected := by
  refine mapM_congr fun v hv => ?_
  have hk : names.idxOf v < names.length := List.idxOf_lt_length_of_mem (hsub v hv)
  obtain ⟨hlen, hget⟩ := List.forall₂_iff_get.1 (mapM_eq_ok.1 h)
  have hv := hget (names.idxOf v) hk (hlen ▸ hk)
  rw [List.get_eq_getElem, List.getElem_idxOf] at hv
  rw [lookup_zip_eq_getElem? hlen.symm, List.getElem?_eq_getElem (hlen ▸ hk), hv]
  rfl

theorem RowTable.select_exists {table : RowTable n t K} {names : List String}
    (h : ∀ v ∈ names, v ∈ table.map Prod.fst) : ∃ rows, table.select names = .ok rows := by
  induction names with
  | nil => exact ⟨[], rfl⟩
  | cons v names ih =>
    obtain ⟨rows, hrows⟩ := ih fun w hw => h w (List.mem_cons_of_mem v hw)
    obtain ⟨row, hrow⟩ := lookup_exists (h v List.mem_cons_self)
    refine ⟨row :: rows, ?_⟩
    rw [select] at hrows ⊢
    rw [List.mapM_cons, hrow, hrows]
    rfl

variable [Scalar K]

/-- Runs components one after the other. Each takes the rows of its inputs from the table and adds
its own rows to it. -/
def runByName (args : RunArguments K) (own : String → Settings K) :
    List (Component K) → RowTable n t K → Except Fault (RowTable n t K × List String)
  | [], table => .ok (table, [])
  | c :: rest, table => do
    let result ← c.compute args (own c.name) (← table.select c.signature.inputs)
    let (table, warnings) ← runByName args own rest (table ++ c.rowNames.zip result.rows)
    return (table, result.warnings ++ warnings)

namespace Component

theorem Composed.length_compute {c : Component K} (hc : c.Composed) {args : RunArguments K}
    {s : Settings K} {rows : List (Grid [n, t] K)} {out : Outcome n t K}
    (h : c.compute args s rows = .ok out) : out.rows.length = c.rowNames.length := by
  cases hc with
  | bucket b =>
    obtain ⟨d, hd, h⟩ := bind_eq_ok.1 h
    exact b.length_run (RunData.prepare_eq_ok hd).2 h
  | route r =>
    obtain ⟨d, hd, h⟩ := bind_eq_ok.1 h
    exact r.length_run (RunData.prepare_eq_ok (prepareFor_route hd).2).2 h
  | hydrograph u =>
    obtain ⟨d, hd, h⟩ := bind_eq_ok.1 h
    exact u.length_run h
  | @model d _ _ built =>
    obtain ⟨-, ordered, -, -, rfl⟩ := Composition.build_eq_ok.1 built
    obtain ⟨-, -, table, -, hrows⟩ := compute_model_eq_ok.1 h
    rw [← (mapM_eq_ok.1 hrows).length_eq]
    exact List.length_map _

section

variable {w : Wiring K} {args : RunArguments K} {s : Settings K} {parts : List (Component K)}

/-- The rows after some parts are the rows before them and a row for every row name of a part. -/
theorem length_computeAll (hparts : ∀ c ∈ parts, c.Composed) {places : List (List Nat)}
    (hplaces : places.length = parts.length) {rows : List (Grid [n, t] K)}
    {result : List (Grid [n, t] K) × List String}
    (h : computeAll args w parts places s rows = .ok result) :
    result.1.length = rows.length + (parts.flatMap rowNames).length := by
  induction parts generalizing places rows result with
  | nil =>
    obtain rfl : (rows, []) = result := Except.ok.inj h
    rfl
  | cons c rest ih => cases places with
    | nil => simp at hplaces
    | cons place more =>
      obtain ⟨inputs, -, h⟩ := bind_eq_ok.1 h
      obtain ⟨out, hout, h⟩ := bind_eq_ok.1 h
      obtain ⟨result', hrest, h⟩ := bind_eq_ok.1 h
      obtain rfl := Except.ok.inj h
      rw [ih (fun p hp => hparts p (List.mem_cons_of_mem c hp)) (by simpa using hplaces) hrest,
        List.length_append, (hparts c List.mem_cons_self).length_compute hout,
        List.flatMap_cons, List.length_append, Nat.add_assoc]

/-- Parts run by name exactly as they run by place. -/
theorem runByName_eq_ok (hparts : ∀ c ∈ parts, c.Composed) {known : List String}
    {rows : List (Grid [n, t] K)} (hlen : rows.length = known.length)
    {result : RowTable n t K × List String} :
    runByName args (w.settingsFor · s) parts (known.zip rows) = .ok result ↔
      ∃ rows', computeAll args w parts (Composition.inputPlaces known parts) s rows =
          .ok (rows', result.2) ∧
        (known ++ parts.flatMap rowNames).zip rows' = result.1 := by
  induction parts generalizing known rows result with
  | nil =>
    simp only [runByName, computeAll, Except.ok.injEq, List.flatMap_nil, List.append_nil]
    constructor
    · rintro rfl
      exact ⟨rows, rfl, rfl⟩
    · rintro ⟨rows', h, hzip⟩
      obtain ⟨rfl, hwarn⟩ := Prod.mk.inj h
      exact Prod.ext hzip hwarn
  | cons c rest ih =>
    have hrest (p : Component K) (hp : p ∈ rest) : p.Composed :=
      hparts p (List.mem_cons_of_mem c hp)
    have hnames : known ++ (c :: rest).flatMap rowNames =
        known ++ c.rowNames ++ rest.flatMap rowNames := by
      rw [List.flatMap_cons, List.append_assoc]
    have hstep {out : Outcome n t K} {inputs : List (Grid [n, t] K)}
        (hout : c.compute args (w.settingsFor c.name s) inputs = .ok out) :
        (rows ++ out.rows).length = (known ++ c.rowNames).length := by
      rw [List.length_append, List.length_append, hlen,
        (hparts c List.mem_cons_self).length_compute hout]
    simp only [runByName, Composition.inputPlaces, computeAll, rowsAt_eq_select hlen, hnames,
      bind_eq_ok, pure_eq_ok, Except.ok.injEq, Prod.exists]
    constructor
    · rintro ⟨inputs, hinputs, out, hout, table, warnings, h, rfl⟩
      rw [← List.zip_append hlen.symm, ih hrest (hstep hout)] at h
      obtain ⟨rows', hrun, hzip⟩ := h
      exact ⟨rows', ⟨inputs, hinputs, out, hout, rows', warnings, hrun, rfl⟩, hzip⟩
    · rintro ⟨rows', ⟨inputs, hinputs, out, hout, rows₁, warnings, hrun, h⟩, hzip⟩
      obtain ⟨rfl, hwarn⟩ := Prod.mk.inj h
      refine ⟨inputs, hinputs, out, hout, result.1, warnings, ?_, Prod.ext rfl hwarn⟩
      rw [← List.zip_append hlen.symm, ih hrest (hstep hout)]
      exact ⟨rows₁, hrun, hzip⟩

end

theorem checks_of_runByName {w : Wiring K} {args : RunArguments K} {s : Settings K}
    {parts : List (Component K)} {table : RowTable n t K} {result : RowTable n t K × List String}
    (h : runByName args (w.settingsFor · s) parts table = .ok result) :
    (∀ c ∈ parts, args.missing? c.signature = none) ∧ checkAll n t args w parts s = .ok () := by
  induction parts generalizing table result with
  | nil => exact ⟨fun c hc => (List.not_mem_nil hc).elim, by rw [checkAll]⟩
  | cons c rest ih =>
    obtain ⟨rows, hrows, h⟩ := bind_eq_ok.1 h
    obtain ⟨out, hout, h⟩ := bind_eq_ok.1 h
    obtain ⟨result', hrest, -⟩ := bind_eq_ok.1 h
    obtain ⟨hmissing, hcheck⟩ := ih hrest
    refine ⟨fun p hp => ?_, ?_⟩
    · rcases List.mem_cons.1 hp with rfl | hp
      · exact missing?_of_compute hout
      · exact hmissing p hp
    · rw [checkAll, check_of_compute hout, ok_bind, hcheck]

end Component

namespace Composition

variable {d : Composition K} {ordered : List (Component K)}

theorem selectedSignature_inputs (whole : Signature) :
    (d.selectedSignature whole).inputs = whole.inputs := by
  unfold selectedSignature
  split <;> rfl

/-- What a model needs for a run is what its parts need. -/
theorem missing?_wiring {args : RunArguments K}
    (h : ∀ c ∈ ordered, args.missing? c.signature = none) :
    args.missing? (d.wiring ordered).signature = none := by
  have hsig : (d.wiring ordered).signature.params ++ (d.wiring ordered).signature.networks =
      orderedUnion (ordered.map fun c => c.signature.params) ++
        orderedUnion (ordered.map fun c => c.signature.networks) := by
    simp only [wiring, selectedSignature]
    split <;> rfl
  rw [RunArguments.missing?_eq_none, hsig]
  intro v hv
  simp only [List.mem_append, mem_orderedUnion, List.mem_map, exists_exists_and_eq_and] at hv
  rcases hv with ⟨c, hc, hv⟩ | ⟨c, hc, hv⟩
  · exact RunArguments.missing?_eq_none.1 (h c hc) v (List.mem_append_left _ hv)
  · exact RunArguments.missing?_eq_none.1 (h c hc) v (List.mem_append_right _ hv)

/-- A model returns what its parts return by name. -/
theorem compute_wiring_eq_ok (hparts : ∀ c ∈ ordered, c.Composed) {args : RunArguments K}
    {s : Settings K} {rows : List (Grid [n, t] K)} {out : Outcome n t K}
    (hlen : rows.length = (d.wholeSignature ordered).inputs.length) :
    (Component.model (d.wiring ordered) ordered).compute args s rows = .ok out ↔
      ∃ table, runByName args (fun name => (d.settings.lookup name).getD s) ordered
          ((d.wholeSignature ordered).inputs.zip rows) = .ok (table, out.warnings) ∧
        table.select (d.selected (d.wholeSignature ordered)) = .ok out.rows := by
  have hselect {table : List (Grid [n, t] K)} {warnings : List String}
      (h : Component.computeAll args (d.wiring ordered) ordered
        (inputPlaces (d.wholeSignature ordered).inputs ordered) s rows = .ok (table, warnings)) :
      rowsAt table (d.wiring ordered).outputPlaces = RowTable.select
        (((d.wholeSignature ordered).inputs ++ ordered.flatMap Component.rowNames).zip table)
        (d.selected (d.wholeSignature ordered)) := by
    refine rowsAt_eq_select ?_ _
    rw [List.length_append, ← hlen]
    exact Component.length_computeAll hparts (length_inputPlaces _ _) h
  rw [Component.compute_model_eq_ok]
  constructor
  · rintro ⟨-, -, table, htable, hrows⟩
    exact ⟨_, (Component.runByName_eq_ok (w := d.wiring ordered) hparts hlen).2
      ⟨table, htable, rfl⟩, (hselect htable).symm.trans hrows⟩
  · rintro ⟨names, hnames, hrows⟩
    obtain ⟨hmissing, hcheck⟩ := Component.checks_of_runByName (w := d.wiring ordered) hnames
    obtain ⟨table, htable, rfl⟩ := (Component.runByName_eq_ok (w := d.wiring ordered)
      hparts hlen).1 hnames
    exact ⟨missing?_wiring hmissing, hcheck, table, htable, (hselect htable).trans hrows⟩

theorem keys_of_runByName {args : RunArguments K} {own : String → Settings K}
    {parts : List (Component K)} (hparts : ∀ c ∈ parts, c.Composed) {table : RowTable n t K}
    {result : RowTable n t K × List String} (h : runByName args own parts table = .ok result) :
    result.1.map Prod.fst = table.map Prod.fst ++ parts.flatMap Component.rowNames := by
  induction parts generalizing table result with
  | nil =>
    obtain rfl : (table, []) = result := Except.ok.inj h
    simp
  | cons c rest ih =>
    obtain ⟨inputs, -, h⟩ := bind_eq_ok.1 h
    obtain ⟨out, hout, h⟩ := bind_eq_ok.1 h
    obtain ⟨result', hrest, h⟩ := bind_eq_ok.1 h
    obtain rfl := Except.ok.inj h
    have hcount := (hparts c List.mem_cons_self).length_compute hout
    have hkeys := ih (fun p hp => hparts p (List.mem_cons_of_mem c hp)) hrest
    rw [List.map_append, List.map_fst_zip (by omega)] at hkeys
    rw [hkeys, List.flatMap_cons, List.append_assoc]

theorem signature_wiring_inputs :
    (d.wiring ordered).signature.inputs = (d.wholeSignature ordered).inputs :=
  selectedSignature_inputs _

/-- A run of a model returns the rows of its parts, run one after the other by name. -/
theorem run_wiring_eq_ok (hparts : ∀ c ∈ ordered, c.Composed) {input : Nested K}
    {args : RunArguments K} {s : Settings K} {result : RunResult K} :
    (Component.model (d.wiring ordered) ordered).run input args s = .ok result ↔
      ∃ given : InputRows K, given.Reads input ∧
        given.rows.length = (d.wholeSignature ordered).inputs.length ∧
        ∃ table rows warnings,
          runByName args (fun name => (d.settings.lookup name).getD s) ordered
            ((d.wholeSignature ordered).inputs.zip given.rows) = .ok (table, warnings) ∧
          table.select (d.selected (d.wholeSignature ordered)) = .ok rows ∧
          result = given.result rows warnings := by
  rw [Component.run_eq_ok]
  refine exists_congr fun given => and_congr_right fun _ => ?_
  have hinputs : (Component.model (d.wiring ordered) ordered).signature.inputs =
      (d.wholeSignature ordered).inputs := signature_wiring_inputs
  rw [hinputs]
  refine and_congr_right fun hlen => ?_
  constructor
  · rintro ⟨out, hout, rfl⟩
    obtain ⟨table, htable, hrows⟩ := (compute_wiring_eq_ok hparts hlen).1 hout
    exact ⟨table, out.rows, out.warnings, htable, hrows, rfl⟩
  · rintro ⟨table, rows, warnings, htable, hrows, rfl⟩
    exact ⟨⟨rows, warnings⟩, (compute_wiring_eq_ok hparts hlen).2 ⟨table, htable, hrows⟩, rfl⟩

/-- The same composition with all states and outputs as rows. -/
def unselected (d : Composition K) : Composition K := { d with outputs := none }

theorem build_unselected (hordered : d.order = .ok ordered) (hfault : d.fault? ordered = none)
    (hsome : d.parts ≠ [] ∧ d.componentTwice? = none) :
    d.unselected.build = .ok (.model (d.unselected.wiring ordered) ordered) := by
  obtain ⟨h₁, h₂, h₃, -, h₅⟩ := fault?_eq_none.1 hfault
  have hfault' : d.unselected.fault? ordered = none :=
    fault?_eq_none.2 ⟨h₁, h₂, h₃, uncomputed?_eq_none.2 fun v hv => hv, h₅⟩
  exact build_eq_ok.2 ⟨hsome, ordered, hordered, hfault', rfl⟩

theorem select_computed (hparts : ∀ c ∈ ordered, c.Composed) {args : RunArguments K}
    {own : String → Settings K} {known : List String} {rows : List (Grid [n, t] K)}
    {result : RowTable n t K × List String}
    (h : runByName args own ordered (known.zip rows) = .ok result) {names : List String}
    (hnames : ∀ v ∈ names,
      v ∈ (d.wholeSignature ordered).states ++ (d.wholeSignature ordered).outputs) :
    ∃ rows, result.1.select names = .ok rows := by
  refine RowTable.select_exists fun v hv => ?_
  rw [keys_of_runByName hparts h, List.mem_append]
  refine .inr (List.mem_flatMap.2 ?_)
  have hv := hnames v hv
  simp only [wholeSignature, List.mem_append, mem_orderedUnion, List.mem_map,
    exists_exists_and_eq_and] at hv
  rcases hv with ⟨c, hc, hv⟩ | ⟨c, hc, hv⟩
  · exact ⟨c, hc, (hparts c hc).mem_rowNames.2 (List.mem_append_left _ hv)⟩
  · exact ⟨c, hc, (hparts c hc).mem_rowNames.2 (List.mem_append_right _ hv)⟩

/-- Wiring by place is wiring by name. With default inputs every input of a part is resolved. A
model returns the rows of its parts, run one after the other in order, each with its own settings and on
the rows that stand under the names of its inputs. A selection of rows returns what the same model
returns without it, under the selected names. -/
theorem wiring_by_name (hparts : ∀ c ∈ d.parts, c.Composed) :
    (d.inputs = none → ∀ v name, d.build ≠ misconfigured (.inputUnresolved v name)) ∧
    ∀ c, d.build = .ok c → ∃ ordered, d.order = .ok ordered ∧
      (ordered.Perm d.parts ∧ Item.InOrder (ordered.map fun p => p.signature.item)) ∧
      c.rowNames = d.selected (d.wholeSignature ordered) ∧
      (∀ input args s result, c.run input args s = .ok result ↔
        ∃ given : InputRows K, given.Reads input ∧
          given.rows.length = c.signature.inputs.length ∧ ∃ table rows warnings,
            runByName args (fun name => (d.settings.lookup name).getD s) ordered
              (c.signature.inputs.zip given.rows) = .ok (table, warnings) ∧
            table.select c.rowNames = .ok rows ∧ result = given.result rows warnings) ∧
      ∀ selected, d.outputs = some selected → c.rowNames = selected ∧
        ∃ whole, d.unselected.build = .ok whole ∧ ∀ input args s,
          (∀ result, c.run input args s = .ok result →
            ∃ given : InputRows K, ∃ all rows warnings, given.Reads input ∧
              whole.run input args s = .ok (given.result all warnings) ∧
              all.length = whole.rowNames.length ∧
              RowTable.select (whole.rowNames.zip all) selected = .ok rows ∧
              result = given.result rows warnings) ∧
          ∀ result, whole.run input args s = .ok result →
            ∃ result', c.run input args s = .ok result' := by
  refine ⟨fun hinputs => build_ne_inputUnresolved hparts hinputs, fun c built => ?_⟩
  obtain ⟨hsome, ordered, hordered, hfault, rfl⟩ := build_eq_ok.1 built
  obtain ⟨hperm, horder⟩ := order_eq_ok hordered
  have hcomposed : ∀ p ∈ ordered, p.Composed := fun p hp => hparts p (hperm.mem_iff.1 hp)
  have hcomputed := uncomputed?_eq_none.1 (fault?_eq_none.1 hfault).2.2.2.1
  refine ⟨ordered, hordered, ⟨hperm, horder⟩, rfl, fun input args s result => ?_,
    fun selected hselected => ?_⟩
  · have hinputs : (Component.model (d.wiring ordered) ordered).signature.inputs =
        (d.wholeSignature ordered).inputs := signature_wiring_inputs
    rw [run_wiring_eq_ok hcomposed, hinputs]
    rfl
  · have hnames : d.selected (d.wholeSignature ordered) = selected := by
      rw [Composition.selected, hselected]
      rfl
    refine ⟨hnames, _, build_unselected hordered hfault hsome, fun input args s =>
      ⟨fun result hrun => ?_, fun result hrun => ?_⟩⟩
    · obtain ⟨given, hgiven, hlen, table, rows, warnings, htable, hrows, rfl⟩ :=
        (run_wiring_eq_ok hcomposed).1 hrun
      obtain ⟨all, hall⟩ := select_computed (d := d) hcomposed htable fun v hv => hv
      refine ⟨given, all, rows, warnings, hgiven, (run_wiring_eq_ok hcomposed).2
        ⟨given, hgiven, hlen, table, all, warnings, htable, hall, rfl⟩,
        RowTable.length_select hall, ?_, rfl⟩
      rw [← hnames]
      exact (RowTable.select_select hall hcomputed).trans hrows
    · obtain ⟨given, hgiven, hlen, table, all, warnings, htable, -, -⟩ :=
        (run_wiring_eq_ok hcomposed).1 hrun
      obtain ⟨rows, hrows⟩ := select_computed (d := d) hcomposed htable hcomputed
      exact ⟨_, (run_wiring_eq_ok hcomposed).2
        ⟨given, hgiven, hlen, table, rows, warnings, htable, hrows, rfl⟩⟩

def doubling : Bucket Float where
  name := some "doubling"
  fluxes := [.flux ⟨{
    name := "double", outputs := ["a"], inputs := ["x"], params := []
    exprs := [.binary .add (.var "x") (.var "x")], law := none }, by decide⟩]
  rates := []
  sort := true
  noRate := rfl
  ordered := _
  order_eq := rfl
  accepted := BucketDraft.fault?_eq_none.2 (by decide)

def multiplying : Bucket Float where
  name := some "multiplying"
  fluxes := [.flux ⟨{
    name := "product", outputs := ["y"], inputs := ["a", "x"], params := []
    exprs := [.binary .mul (.var "a") (.var "x")], law := none }, by decide⟩]
  rates := []
  sort := true
  noRate := rfl
  ordered := _
  order_eq := rfl
  accepted := BucketDraft.fault?_eq_none.2 (by decide)

def chain : Composition Float where
  name := some "chain"
  parts := [.bucket multiplying, .bucket doubling]
  sort := true
  inputs := none
  outputs := some ["y", "a", "y"]
  settings := []

theorem chain_build : chain.build =
    .ok (.model (chain.wiring [.bucket doubling, .bucket multiplying])
      [.bucket doubling, .bucket multiplying]) := by
  refine build_eq_ok.2 ⟨⟨by simp [chain], rfl⟩, _, rfl, fault?_eq_none.2 ⟨?_, ?_, ?_, ?_, ?_⟩, rfl⟩
  · exact Signature.stateAndOutput?_eq_none.2 (by decide)
  · rfl
  · rfl
  · rfl
  · exact unknownSettings?_eq_none.2 (by decide)

/-- Of 3/2 the double is 3 and their product 9/2, which is returned before and after the double. -/
theorem chain_run :
    let x : Nested Float := .entry (.real (Scalar.ratio 3 2))
    ∃ c, chain.build = .ok c ∧ c.run (.list [.list [x]]) ⟨[], []⟩ .standard =
      .ok ⟨Outcome.toTensor (n := 1) (t := 1) ⟨[⟨#v[Scalar.ratio 9 2]⟩, ⟨#v[Scalar.ofInt 3]⟩,
        ⟨#v[Scalar.ratio 9 2]⟩], []⟩ true, []⟩ := by
  intro x
  have hparts : ∀ c ∈ chain.parts, c.Composed := by
    simp only [chain, List.mem_cons, List.not_mem_nil, or_false]
    rintro c (rfl | rfl) <;> exact .bucket _
  obtain ⟨ordered, hordered, -, -, hrun, -⟩ := (wiring_by_name hparts).2 _ chain_build
  obtain rfl : [.bucket doubling, .bucket multiplying] = ordered := Except.ok.inj hordered
  refine ⟨_, chain_build, (hrun _ _ _ _).2 ⟨⟨1, 1, [⟨#v[Scalar.ratio 3 2]⟩], true⟩, ⟨_, rfl, rfl⟩,
    rfl, ?_⟩⟩
  exact ⟨[("x", ⟨#v[Scalar.ratio 3 2]⟩), ("a", ⟨#v[Scalar.ofInt 3]⟩),
    ("y", ⟨#v[Scalar.ratio 9 2]⟩)], _, [], rfl, rfl, rfl⟩

end Composition

end Catchment
