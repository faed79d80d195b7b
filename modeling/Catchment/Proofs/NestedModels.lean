import Catchment.Proofs.RearrangedParts

/-!
# Nested models

A model that returns all its rows returns rows by name exactly if its parts do. So it can stand in
another model in place of its parts: names come in the same order, and runs return the same.
-/
namespace Catchment

theorem firstOccurrences_concat (names : List String) (v : String) :
    firstOccurrences (names ++ [v]) =
      if v ∈ names then firstOccurrences names else firstOccurrences names ++ [v] := by
  have hstep : firstOccurrences (names ++ [v]) =
      if (firstOccurrences names).contains v then firstOccurrences names
      else firstOccurrences names ++ [v] := by
    rw [firstOccurrences, List.foldl_append]
    rfl
  simpa only [List.contains_eq_mem, decide_eq_true_eq, mem_firstOccurrences] using hstep

theorem firstOccurrences_of_nodup {names : List String} (h : names.Nodup) :
    firstOccurrences names = names := by
  induction names using List.reverseRecOn with
  | nil => rfl
  | append_singleton names v ih =>
    obtain ⟨hnames, -, hv⟩ := List.nodup_append.1 h
    rw [firstOccurrences_concat, if_neg fun hmem => hv v hmem v (List.mem_singleton_self v) rfl,
      ih hnames]

theorem firstOccurrences_append_left (names more : List String) :
    firstOccurrences (firstOccurrences names ++ more) = firstOccurrences (names ++ more) := by
  induction more using List.reverseRecOn with
  | nil => simp only [List.append_nil, firstOccurrences_of_nodup (nodup_firstOccurrences names)]
  | append_singleton more v ih =>
    simp only [← List.append_assoc, firstOccurrences_concat, ih, List.mem_append,
      mem_firstOccurrences]

theorem filter_firstOccurrences (p : String → Bool) (names : List String) :
    (firstOccurrences names).filter p = firstOccurrences (names.filter p) := by
  induction names using List.reverseRecOn with
  | nil => rfl
  | append_singleton names v ih =>
    rw [firstOccurrences_concat, List.filter_append, List.filter_singleton]
    cases hp : p v with
    | false =>
      rw [cond_false, List.append_nil, ← ih]
      split
      · rfl
      · simp [hp]
    | true =>
      rw [cond_true, firstOccurrences_concat, ← ih]
      by_cases hv : v ∈ names
      · rw [if_pos hv, if_pos (List.mem_filter.2 ⟨hv, hp⟩)]
      · rw [if_neg hv, if_neg fun h => hv (List.mem_filter.1 h).1]
        simp [hp]

theorem orderedUnion_cons_union (groups more : List (List String)) :
    orderedUnion (orderedUnion groups :: more) = orderedUnion (groups ++ more) := by
  simp only [orderedUnion, List.flatten_cons, List.flatten_append, firstOccurrences_append_left]

/-- Names that were filtered before may be filtered again with the others. -/
theorem filter_orderedUnion_cons {p q : String → Bool} (hqp : ∀ v, q v = true → p v = true)
    (groups more : List (List String)) :
    (orderedUnion ((orderedUnion groups).filter p :: more)).filter q =
      (orderedUnion (groups ++ more)).filter q := by
  have hfilter (names : List String) : (names.filter p).filter q = names.filter q := by
    rw [List.filter_filter]
    refine List.filter_congr fun v _ => ?_
    cases hq : q v with
    | false => rfl
    | true => rw [hqp v hq]; rfl
  rw [← orderedUnion_cons_union groups]
  simp only [orderedUnion, List.flatten_cons, filter_firstOccurrences, List.filter_append, hfilter]

/-- Items in order can stand in place of one that produces what they do and reads what they do not
find among themselves. -/
theorem Item.InOrder.append_of_cons {items more : List Item} {a : Item} (h : InOrder items)
    (h' : InOrder (a :: more)) (hproduces : ∀ v, v ∈ a.produces ↔ v ∈ items.flatMap produces)
    (hreads : ∀ b ∈ items, ∀ v ∈ b.reads, v ∈ a.reads ∨ v ∈ a.produces) :
    InOrder (items ++ more) := by
  have honce := h'.once
  rw [List.flatMap_cons] at honce
  obtain ⟨-, hmore, hdisjoint⟩ := List.nodup_append.1 honce
  obtain ⟨hfirst, hlater⟩ := List.pairwise_cons.1 h'.later
  refine ⟨?_, ?_, List.pairwise_append.2 ⟨h.later, hlater, fun b hb c hc v hv hvc => ?_⟩⟩
  · rw [List.flatMap_append]
    exact List.nodup_append.2 ⟨h.once, hmore, fun v hv => hdisjoint v ((hproduces v).2 hv)⟩
  · exact List.forall_mem_append.2 ⟨h.own, fun b hb => h'.own b (List.mem_cons_of_mem a hb)⟩
  · rcases hreads b hb v hv with hv | hv
    · exact hfirst c hc v hv hvc
    · exact hdisjoint v hv v (List.mem_flatMap.2 ⟨c, hc, hvc⟩) rfl

variable {K : Type} [Scalar K] {n t : Nat} {args : RunArguments K} {s : Settings K}

namespace Component

theorem Returns.congr {y z : String → Grid [n, t] K} {c : Component K}
    (hinputs : ∀ v ∈ c.signature.inputs, y v = z v) (hrows : ∀ v ∈ c.rowNames, y v = z v) :
    (c.Returns args s y ↔ c.Returns args s z) ∧
      c.warningsOver args s y = c.warningsOver args s z := by
  have hread : c.signature.inputs.map y = c.signature.inputs.map z := List.map_congr_left hinputs
  have hmade : c.rowNames.map y = c.rowNames.map z := List.map_congr_left hrows
  have hwarnings : c.warningsOver args s y = c.warningsOver args s z := by
    rw [warningsOver, warningsOver, hread]
  refine ⟨?_, hwarnings⟩
  rw [Returns, Returns, hread, hmade, hwarnings]

end Component

namespace Composition

variable {d : Composition K} {ordered : List (Component K)}

/-- A model that returns all rows returns rows by name exactly if all its parts do, with the
warnings of the parts in order. -/
theorem returns_wiring (hparts : ∀ c ∈ ordered, c.Composed)
    (horder : Item.InOrder (ordered.map fun c => c.signature.item))
    (hfault : d.fault? ordered = none) (houtputs : d.outputs = none)
    {y : String → Grid [n, t] K} :
    ((Component.model (d.wiring ordered) ordered).Returns args s y ↔
      ∀ c ∈ ordered, c.Returns args ((d.settings.lookup c.name).getD s) y) ∧
    ((∀ c ∈ ordered, c.Returns args ((d.settings.lookup c.name).getD s) y) →
      (Component.model (d.wiring ordered) ordered).warningsOver args s y =
        ordered.flatMap fun c => c.warningsOver args ((d.settings.lookup c.name).getD s) y) := by
  have hinputs : (Component.model (d.wiring ordered) ordered).signature.inputs =
      (d.wholeSignature ordered).inputs := signature_wiring_inputs
  have hcompute {out : Outcome n t K} : (Component.model (d.wiring ordered) ordered).compute args s
      ((d.wholeSignature ordered).inputs.map y) = .ok out ↔ _ :=
    compute_wiring_named hparts horder hfault
  have hof (h : ∀ c ∈ ordered, c.Returns args ((d.settings.lookup c.name).getD s) y) :=
    hcompute.2 ⟨y, fun _ _ => rfl, h, rfl⟩
  refine ⟨⟨fun h => ?_, fun h => ?_⟩, fun h => ?_⟩
  · rw [Component.Returns, hinputs] at h
    obtain ⟨z, hz, hreturns, hout⟩ := hcompute.1 h
    have hmade : ∀ v ∈ ordered.flatMap Component.rowNames, z v = y v := fun v hv => by
      have hrows := (Outcome.mk.inj hout).1
      have hv : v ∈ d.selected (d.wholeSignature ordered) := by
        rw [selected_default houtputs]
        exact (mem_produced hparts).2 hv
      exact (List.map_inj_left.1 hrows v hv).symm
    obtain ⟨-, -, hresolved, -⟩ := fault?_eq_none.1 hfault
    intro c hc
    refine (Component.Returns.congr (fun v hv => ?_) fun v hv => ?_).1.1 (hreturns c hc)
    · rcases known_of_unresolved? hresolved hc hv with hv | ⟨p, hp, hv⟩
      · exact hz v hv
      · exact hmade v (List.mem_flatMap.2 ⟨p, hp, hv⟩)
    · exact hmade v (List.mem_flatMap.2 ⟨c, hc, hv⟩)
  · exact Component.returns_iff.2 ⟨_, hinputs ▸ hof h⟩
  · rw [Component.warningsOver, hinputs, hof h]

/-- Parts as they stand, with default inputs, all rows and no settings of their own. -/
def plain (name : Option String) (parts : List (Component K)) : Composition K :=
  { name, parts, sort := false, inputs := none, outputs := none, settings := [] }

variable {name nameIn nameOut : Option String} {parts inner rest : List (Component K)}

theorem plain_build_eq_ok {c : Component K} :
    (plain name parts).build = .ok c ↔ (parts ≠ [] ∧ (parts.map Component.name).Nodup) ∧
      Item.InOrder (parts.map fun p => p.signature.item) ∧
      (plain name parts).fault? parts = none ∧
        .model ((plain name parts).wiring parts) parts = c := by
  have htwice : (plain name parts).componentTwice? = none ↔
      (parts.map Component.name).Nodup := by
    rw [componentTwice?_eq_none, List.nodup_iff_count_le_one]
    refine ⟨fun h v => ?_, fun h v _ => h v⟩
    by_cases hv : v ∈ parts.map Component.name
    · exact h v hv
    · exact (List.count_eq_zero.2 hv).trans_le (Nat.zero_le 1)
  rw [build_eq_ok, htwice]
  refine and_congr_right fun _ => ⟨?_, ?_⟩
  · rintro ⟨ordered, hordered, hfault, rfl⟩
    obtain ⟨⟨⟩, hcheck, hsame⟩ := bind_eq_ok.1 hordered
    obtain rfl : parts = ordered := Except.ok.inj hsame
    exact ⟨Item.checkOrder_eq_ok.1 hcheck, hfault, rfl⟩
  · rintro ⟨horder, hfault, rfl⟩
    exact ⟨parts, orderItems_of_inOrder horder, hfault, rfl⟩

/-- With default inputs, parts that are in order are accepted if no state is an output too. -/
theorem plain_fault?_eq_none (hparts : ∀ c ∈ parts, c.Composed)
    (horder : Item.InOrder (parts.map fun p => p.signature.item)) :
    (plain name parts).fault? parts = none ↔
      ((plain name parts).wholeSignature parts).stateAndOutput? = none := by
  have hresolved : unresolved? ((plain name parts).wholeSignature parts).inputs parts = none :=
    unresolved?_eq_none (d := plain name parts) hparts rfl (orderItems_of_inOrder horder)
  have hcomputed : uncomputed? ((plain name parts).wholeSignature parts)
      ((plain name parts).selected ((plain name parts).wholeSignature parts)) = none := by
    rw [uncomputed?_eq_none, selected_default rfl]
    exact fun v hv => hv
  have hsettings : (plain name parts).unknownSettings? = none :=
    unknownSettings?_eq_none.2 fun v hv => nomatch hv
  rw [fault?_eq_none]
  exact ⟨fun h => h.1, fun h => ⟨h, rfl, hresolved, hcomputed, hsettings⟩⟩

/-- In front of other parts, the parts of a model read, keep and compute what the model does. -/
theorem wholeSignature_nested (name nameIn nameOut : Option String)
    (inner rest : List (Component K)) :
    let nested : Component K := .model ((plain nameIn inner).wiring inner) inner
    let flat := (plain name (inner ++ rest)).wholeSignature (inner ++ rest)
    flat = { (plain nameOut (nested :: rest)).wholeSignature (nested :: rest) with
      name := flat.name } := by
  intro nested flat
  have hunion (f : Signature → List String)
      (hf : f nested.signature = orderedUnion (inner.map fun c => f c.signature)) :
      orderedUnion ((nested :: rest).map fun c => f c.signature) =
        orderedUnion ((inner ++ rest).map fun c => f c.signature) := by
    rw [List.map_cons, List.map_append, hf, orderedUnion_cons_union]
  have hstates := hunion Signature.states rfl
  have houtputs := hunion Signature.outputs rfl
  have hinputs : ((plain nameOut (nested :: rest)).wholeSignature (nested :: rest)).inputs =
      flat.inputs := by
    simp only [flat, wholeSignature, plain, Option.getD_none, hstates, houtputs]
    rw [List.map_cons, List.map_append (f := fun c : Component K => c.signature.inputs)]
    refine filter_orderedUnion_cons (fun v hv => ?_) _ _
    simp only [List.map_append, Bool.and_eq_true, Bool.not_eq_true', List.contains_eq_mem,
      decide_eq_false_iff_not, mem_orderedUnion, List.mem_append, not_exists, not_and] at hv ⊢
    exact ⟨fun g hg => hv.1 g (.inl hg), fun g hg => hv.2 g (.inl hg)⟩
  show (⟨flat.kind, flat.name, flat.inputs, flat.states, flat.outputs, flat.params,
    flat.networks⟩ : Signature) = _
  rw [← hinputs, Signature.mk.injEq]
  exact ⟨rfl, rfl, rfl, hstates.symm, houtputs.symm, (hunion Signature.params rfl).symm,
    (hunion Signature.networks rfl).symm⟩

/-- Parts may take the place of their model in front of other parts. -/
theorem plain_build_nested (hinner : ∀ c ∈ inner, c.Composed) (hrest : ∀ c ∈ rest, c.Composed)
    {nested whole : Component K} (hnested : (plain nameIn inner).build = .ok nested)
    (hwhole : (plain nameOut (nested :: rest)).build = .ok whole)
    (hnames : ((inner ++ rest).map Component.name).Nodup) (name : Option String) :
    (plain name (inner ++ rest)).build =
      .ok (.model ((plain name (inner ++ rest)).wiring (inner ++ rest)) (inner ++ rest)) := by
  obtain ⟨⟨hne, -⟩, horder, hfault, rfl⟩ := plain_build_eq_ok.1 hnested
  obtain ⟨-, horder', hfault', rfl⟩ := plain_build_eq_ok.1 hwhole
  obtain ⟨-, -, hresolved, -⟩ := fault?_eq_none.1 hfault
  obtain ⟨hdisjoint, -⟩ := fault?_eq_none.1 hfault'
  have hproduced {v : String} := mem_produced (d := plain nameIn inner) hinner (v := v)
  have hordered : Item.InOrder ((inner ++ rest).map fun p => p.signature.item) := by
    rw [List.map_append]
    refine horder.append_of_cons horder' (fun v => hproduced.trans ?_) fun b hb v hv => ?_
    · simp only [List.mem_flatMap, List.mem_map, exists_exists_and_eq_and]
      exact exists_congr fun c => and_congr_right fun hc => (hinner c hc).mem_rowNames
    · obtain ⟨c, hc, rfl⟩ := List.mem_map.1 hb
      refine (known_of_unresolved? hresolved hc hv).imp_right fun ⟨p, hp, hv⟩ => ?_
      exact hproduced.2 (List.mem_flatMap.2 ⟨p, hp, hv⟩)
  refine plain_build_eq_ok.2 ⟨⟨by simp [hne], hnames⟩, hordered,
    (plain_fault?_eq_none (List.forall_mem_append.2 ⟨hinner, hrest⟩) hordered).2 ?_, rfl⟩
  rw [Signature.stateAndOutput?_eq_none] at hdisjoint ⊢
  have hflat := wholeSignature_nested name nameIn nameOut inner rest
  rw [congrArg Signature.states hflat, congrArg Signature.outputs hflat]
  exact hdisjoint

theorem signature_plain {c : Component K} (h : (plain name parts).build = .ok c) :
    c.signature = (plain name parts).wholeSignature parts ∧
      c.rowNames = c.signature.states ++ c.signature.outputs := by
  obtain ⟨-, -, -, rfl⟩ := plain_build_eq_ok.1 h
  exact ⟨rfl, rfl⟩

/-- Parts as they stand return rows by name, each its own of these rows. -/
theorem compute_plain (hparts : ∀ c ∈ parts, c.Composed) {c : Component K}
    (h : (plain name parts).build = .ok c) {x : String → Grid [n, t] K} {out : Outcome n t K} :
    c.compute args s (c.signature.inputs.map x) = .ok out ↔
      ∃ y : String → Grid [n, t] K, (∀ v ∈ c.signature.inputs, y v = x v) ∧
        (∀ p ∈ parts, p.Returns args s y) ∧
        out = ⟨c.rowNames.map y, parts.flatMap fun p => p.warningsOver args s y⟩ := by
  obtain ⟨-, horder, hfault, rfl⟩ := plain_build_eq_ok.1 h
  exact compute_wiring_named hparts horder hfault

/-- Among the parts of another model, a model stands for its own parts. -/
theorem returns_plain (hparts : ∀ c ∈ parts, c.Composed) {c : Component K}
    (h : (plain name parts).build = .ok c) {y : String → Grid [n, t] K} :
    (c.Returns args s y ↔ ∀ p ∈ parts, p.Returns args s y) ∧
      ((∀ p ∈ parts, p.Returns args s y) →
        c.warningsOver args s y = parts.flatMap fun p => p.warningsOver args s y) := by
  obtain ⟨-, horder, hfault, rfl⟩ := plain_build_eq_ok.1 h
  exact returns_wiring hparts horder hfault rfl

end Composition

/-- Components that read the same inputs and return the same for rows by name run the same. -/
theorem Component.run_congr_named {c c' : Component K}
    (hinputs : c.signature.inputs = c'.signature.inputs) (hn : c.signature.inputs.Nodup)
    (h : ∀ {n t : Nat} (x : String → Grid [n, t] K) (out : Outcome n t K),
      c.compute args s (c.signature.inputs.map x) = .ok out ↔
        c'.compute args s (c'.signature.inputs.map x) = .ok out)
    {input : Nested K} {result : RunResult K} :
    c.run input args s = .ok result ↔ c'.run input args s = .ok result := by
  rw [run_eq_ok, run_eq_ok]
  refine exists_congr fun given => and_congr_right fun _ => ?_
  rw [← hinputs]
  refine and_congr_right fun hcount => exists_congr fun out => and_congr_left fun _ => ?_
  obtain ⟨x, hx, -⟩ := exists_rows_by_name hn hcount fun _ => Grid.replicate Scalar.zero
  rw [hx, h x out, hinputs]

namespace Composition

variable {name nameIn nameOut : Option String} {inner rest : List (Component K)}

/-- Nesting models is transparent. A model whose first part is a model, both with default inputs and
all rows and without settings of their own, has the same interface as the model of all the parts,
names in the same order, and each of the two returns what the other one returns. -/
theorem nesting_transparent (hinner : ∀ c ∈ inner, c.Composed) (hrest : ∀ c ∈ rest, c.Composed)
    {nested whole : Component K} (hnested : (plain nameIn inner).build = .ok nested)
    (hwhole : (plain nameOut (nested :: rest)).build = .ok whole)
    (hnames : ((inner ++ rest).map Component.name).Nodup) (name : Option String) :
    ∃ flat, (plain name (inner ++ rest)).build = .ok flat ∧
      flat.signature = { whole.signature with name := flat.name } ∧
      flat.rowNames = whole.rowNames ∧
      ∀ (input : Nested K) (args : RunArguments K) (s : Settings K) (result : RunResult K),
        flat.run input args s = .ok result ↔ whole.run input args s = .ok result := by
  have hcomposed : nested.Composed := .model (d := plain nameIn inner) hinner hnested
  obtain ⟨flat, hflat⟩ : ∃ flat, (plain name (inner ++ rest)).build = .ok flat :=
    ⟨_, plain_build_nested hinner hrest hnested hwhole hnames name⟩
  have hsignature : flat.signature = { whole.signature with name := flat.name } := by
    have hnest := wholeSignature_nested name nameIn nameOut inner rest
    obtain ⟨-, -, -, rfl⟩ := plain_build_eq_ok.1 hnested
    obtain ⟨-, -, -, rfl⟩ := plain_build_eq_ok.1 hwhole
    obtain ⟨-, -, -, rfl⟩ := plain_build_eq_ok.1 hflat
    exact hnest
  have hinputs : flat.signature.inputs = whole.signature.inputs :=
    (congrArg Signature.inputs hsignature).trans rfl
  have hrows : flat.rowNames = whole.rowNames := by
    rw [(signature_plain hflat).2, (signature_plain hwhole).2]
    exact congrArg (fun sig => sig.states ++ sig.outputs) hsignature
  have hn : flat.signature.inputs.Nodup := by
    rw [(signature_plain hflat).1]
    exact nodup_inputs rfl _
  refine ⟨flat, hflat, hsignature, hrows, fun input args s result =>
    Component.run_congr_named hinputs hn fun x out => ?_⟩
  rw [compute_plain (List.forall_mem_append.2 ⟨hinner, hrest⟩) hflat,
    compute_plain (List.forall_mem_cons.2 ⟨hcomposed, hrest⟩) hwhole, hinputs, hrows]
  refine exists_congr fun y => and_congr_right fun _ => ?_
  obtain ⟨hreturns, hwarnings⟩ : (nested.Returns args s y ↔ _) ∧ _ := returns_plain hinner hnested
  rw [List.forall_mem_append, List.forall_mem_cons, hreturns, List.flatMap_append,
    List.flatMap_cons]
  refine and_congr_right fun h => ?_
  rw [hwarnings h.1]

theorem plain_build (name : Option String) {parts : List (Component K)}
    (hparts : ∀ c ∈ parts, c.Composed) (hne : parts ≠ [])
    (hnames : (parts.map Component.name).Nodup)
    (hcheck : Item.checkOrder "component" (parts.map fun p => p.signature.item) = .ok ())
    (hdisjoint : ∀ v ∈ ((plain name parts).wholeSignature parts).states,
      v ∉ ((plain name parts).wholeSignature parts).outputs) :
    (plain name parts).build = .ok (.model ((plain name parts).wiring parts) parts) := by
  have horder := Item.checkOrder_eq_ok.1 hcheck
  exact plain_build_eq_ok.2 ⟨⟨hne, hnames⟩, horder, (plain_fault?_eq_none hparts horder).2
    (Signature.stateAndOutput?_eq_none.2 hdisjoint), rfl⟩

def doubledStore : List (Component Float) := [.bucket doubling, .bucket .linearStore]

/-- The bucket that multiplies what is doubled stands behind both or behind their model. -/
theorem doubledStore_transparent :
    let one : Nested Float := .entry (.real Scalar.one)
    let input : Nested Float := .list [.list [one, .entry (.real (Scalar.ofInt 2))],
      .list [one, one]]
    let args : RunArguments Float := ⟨[("k", .entry (.real (Scalar.ratio 1 2)))], [("s", one)]⟩
    ∃ nested whole flat, (plain none doubledStore).build = .ok nested ∧
      (plain none [nested, .bucket multiplying]).build = .ok whole ∧
      (plain none (doubledStore ++ [.bucket multiplying])).build = .ok flat ∧
      flat.rowNames = ["s", "a", "q", "y"] ∧ ∃ result, flat.run input args .standard = .ok result ∧
        whole.run input args .standard = .ok result ∧
        result.rows.toList = [Scalar.one, Scalar.ratio 3 2, Scalar.ofInt 2, Scalar.ofInt 4,
          Scalar.ratio 1 2, Scalar.ratio 3 4, Scalar.ofInt 2, Scalar.ofInt 8] := by
  intro one input args
  have hinner : ∀ c ∈ doubledStore, c.Composed :=
    List.forall_mem_cons.2 ⟨.bucket _, List.forall_mem_singleton.2 (.bucket _)⟩
  have hrest : ∀ c ∈ [Component.bucket multiplying], c.Composed :=
    List.forall_mem_singleton.2 (.bucket _)
  have hparts := List.forall_mem_append.2 ⟨hinner, hrest⟩
  have hnested := plain_build none hinner nofun (by decide) rfl (by decide)
  have hwhole := plain_build none (List.forall_mem_cons.2 ⟨.model
    (d := plain none _) hinner hnested, hrest⟩) nofun (by decide) rfl (by decide)
  obtain ⟨flat, hflat, -, -, hrun⟩ :=
    nesting_transparent hinner hrest hnested hwhole (by decide) none
  obtain rfl := Except.ok.inj ((plain_build none hparts nofun (by decide) rfl
    (by decide)).symm.trans hflat)
  have hresult : ∃ result, (Component.model
      ((plain none (doubledStore ++ [.bucket multiplying])).wiring
        (doubledStore ++ [.bucket multiplying])) (doubledStore ++ [.bucket multiplying])).run input
          args .standard = .ok result ∧
        result.rows.toList = [Scalar.one, Scalar.ratio 3 2, Scalar.ofInt 2, Scalar.ofInt 4,
          Scalar.ratio 1 2, Scalar.ratio 3 4, Scalar.ofInt 2, Scalar.ofInt 8] :=
    exists_ok_of_check (by decide +kernel)
  obtain ⟨result, hresult, hlist⟩ := hresult
  exact ⟨_, _, _, hnested, hwhole, hflat, rfl, result, hresult, (hrun _ _ _ _).1 hresult, hlist⟩

end Composition

end Catchment
