import Catchment.Proofs.ReturnedNames

/-!
# Row places

The rows of a model in a run are its inputs and what its parts return. The parts are wired by the
first place of a name, and the index of names keeps the last. What parts return never repeats a
name, so that both are the one row that is fed to every part that reads the name, and returned for
it. Only a list of inputs may repeat one: parts are fed its first row, and the index gives its last.
-/
namespace Catchment

def lastPlace (names : List String) (v : String) : Nat := names.length - 1 - names.reverse.idxOf v

section

variable {names : List String} {v : String}

theorem lookup_lastPlaces (hv : v ∈ names) :
    (Component.lastPlaces names).lookup v = some (lastPlace names v) :=
  lookup_map_self _ (mem_firstOccurrences.2 hv)

theorem getElem?_lastPlace (hv : v ∈ names) : names[lastPlace names v]? = some v := by
  have hrev : v ∈ names.reverse := List.mem_reverse.2 hv
  have hk : names.reverse.idxOf v < names.length := by
    simpa using List.idxOf_lt_length_of_mem hrev
  rw [lastPlace, ← List.getElem?_reverse hk, List.getElem?_idxOf hrev]

theorem idxOf_le_of_getElem? {j : Nat} (hj : names[j]? = some v) : names.idxOf v ≤ j := by
  obtain ⟨hlt, hget⟩ := List.getElem?_eq_some_iff.1 hj
  by_contra hle
  have hne := List.not_of_lt_findIdx (Nat.lt_of_not_le hle)
  simp [hget] at hne

theorem le_lastPlace {j : Nat} (hj : names[j]? = some v) : j ≤ lastPlace names v := by
  obtain ⟨hlt, -⟩ := List.getElem?_eq_some_iff.1 hj
  have hrev : names.reverse[names.length - 1 - j]? = some v := by
    rw [List.getElem?_reverse (by omega), ← hj]
    congr 1
    omega
  have hle := idxOf_le_of_getElem? hrev
  rw [lastPlace]
  omega

/-- The last place of a name is its first exactly if it is not repeated. -/
theorem lastPlace_eq_idxOf (hv : v ∈ names) :
    lastPlace names v = names.idxOf v ↔ names.count v ≤ 1 := by
  have htwice : ¬ names.count v ≤ 1 ↔ names.Duplicate v := by
    rw [List.duplicate_iff_two_le_count]
    omega
  rw [← not_iff_not, htwice, List.duplicate_iff_exists_distinct_get]
  have hfirst := List.getElem?_idxOf hv
  have hlast := getElem?_lastPlace hv
  constructor
  · intro hne
    obtain ⟨hlt, hget⟩ := List.getElem?_eq_some_iff.1 hfirst
    obtain ⟨hlt', hget'⟩ := List.getElem?_eq_some_iff.1 hlast
    have hbefore : names.idxOf v < lastPlace names v :=
      (le_lastPlace hfirst).lt_of_ne (Ne.symm hne)
    exact ⟨⟨_, hlt⟩, ⟨_, hlt'⟩, hbefore, hget.symm, hget'.symm⟩
  · rintro ⟨⟨i, hi⟩, ⟨j, hj⟩, hij, hvi, hvj⟩ heq
    have hbefore : names.idxOf v ≤ i := idxOf_le_of_getElem? (by simp [hi, hvi])
    have hafter : j ≤ lastPlace names v := le_lastPlace (by simp [hj, hvj])
    have hij : i < j := hij
    omega

end

variable {K : Type} {n t : Nat}

theorem rowsAt_append_left {rows more : List (Grid [n, t] K)} {places : List Nat}
    (h : ∀ k ∈ places, k < rows.length) : rowsAt (rows ++ more) places = rowsAt rows places :=
  mapM_congr fun k hk => by rw [List.getElem?_append_left (h k hk)]

theorem rowsAt_append_right (rows more : List (Grid [n, t] K)) (places : List Nat) :
    rowsAt (rows ++ more) (places.map (rows.length + ·)) = rowsAt more places := by
  rw [rowsAt, rowsAt, List.mapM_map]
  refine mapM_congr fun k _ => ?_
  rw [Function.comp_apply, List.getElem?_append_right (Nat.le_add_right _ _),
    Nat.add_sub_cancel_left]

/-- Rows without repeated names stand at the places of their names. -/
theorem rowsAt_idxOf {names : List String} (hn : names.Nodup) {rows : List (Grid [n, t] K)}
    (hlen : rows.length = names.length) :
    rowsAt rows (names.map (names.idxOf ·)) = .ok rows := by
  rw [rowsAt, List.mapM_map, mapM_eq_ok, List.forall₂_iff_get]
  refine ⟨hlen.symm, fun k hk hk' => ?_⟩
  simp [hn.idxOf_getElem k hk, hk']

section

variable {known names more : List String} {rows own later : List (Grid [n, t] K)}

/-- The rows of names that are known stay where they are. -/
theorem rowsAt_known (hknown : ∀ v ∈ names, v ∈ known) (hlen : rows.length = known.length) :
    rowsAt (rows ++ later) (names.map ((known ++ more).idxOf ·)) =
      rowsAt rows (names.map (known.idxOf ·)) := by
  have hplaces : names.map ((known ++ more).idxOf ·) = names.map (known.idxOf ·) :=
    List.map_congr_left fun v hv => List.idxOf_append_of_mem (hknown v hv)
  rw [hplaces, rowsAt_append_left]
  simp only [List.mem_map, forall_exists_index, and_imp, forall_apply_eq_imp_iff₂, hlen]
  exact fun v hv => List.idxOf_lt_length_of_mem (hknown v hv)

/-- The rows of new names stand after those of the known ones. -/
theorem rowsAt_new (hnew : ∀ v ∈ names, v ∉ known) (hn : names.Nodup)
    (hlen : rows.length = known.length) (hown : own.length = names.length) :
    rowsAt (rows ++ (own ++ later)) (names.map ((known ++ (names ++ more)).idxOf ·)) =
      .ok own := by
  have hplaces : names.map ((known ++ (names ++ more)).idxOf ·) =
      (names.map ((names ++ more).idxOf ·)).map (rows.length + ·) := by
    rw [List.map_map]
    refine List.map_congr_left fun v hv => ?_
    rw [List.idxOf_append_of_notMem (hnew v hv), hlen, Function.comp_apply]
  rw [hplaces, rowsAt_append_right, rowsAt_known (fun v hv => hv) hown, rowsAt_idxOf hn hown]

end

variable [Scalar K] {args : RunArguments K} {s : Settings K} {w : Wiring K}

namespace Composition

variable {parts : List (Component K)} {known : List String}

/-- Every input of a part is wired to its first place among all rows. -/
theorem inputPlaces_eq (hresolved : unresolved? known parts = none) :
    inputPlaces known parts = parts.map fun c =>
      c.signature.inputs.map ((known ++ parts.flatMap Component.rowNames).idxOf ·) := by
  induction parts generalizing known with
  | nil => rfl
  | cons c rest ih =>
    obtain ⟨hinputs, hrest⟩ := unresolved?_cons.1 hresolved
    rw [inputPlaces, List.map_cons, ih hrest, List.flatMap_cons, List.append_assoc]
    refine congrArg (· :: _) (List.map_congr_left fun v hv => ?_)
    rw [List.idxOf_append_of_mem (hinputs v hv)]

end Composition

/-- The rows of a model in a run: those it was given, and for every part those that it returns when
it is fed the rows at the places of its inputs. -/
structure Fed (args : RunArguments K) (own : String → Settings K) (parts : List (Component K))
    (names : List String) (given table : List (Grid [n, t] K)) : Prop where
  size : table.length = names.length
  given_isPrefix : given <+: table
  fed : ∀ c ∈ parts, ∃ read out, rowsAt table (c.signature.inputs.map (names.idxOf ·)) = .ok read ∧
    c.compute args (own c.name) read = .ok out ∧
    rowsAt table (c.rowNames.map (names.idxOf ·)) = .ok out.rows

namespace Component

variable {parts : List (Component K)} {known : List String}

/-- Parts with different row names leave every row where the names say. -/
theorem fed_of_computeAll (hparts : ∀ c ∈ parts, c.Composed)
    (hnew : (parts.flatMap rowNames).Nodup) (hold : ∀ v ∈ known, v ∉ parts.flatMap rowNames)
    (hresolved : Composition.unresolved? known parts = none) {rows : List (Grid [n, t] K)}
    (hlen : rows.length = known.length) {table : List (Grid [n, t] K)} {warnings : List String}
    (h : computeAll args w parts (Composition.inputPlaces known parts) s rows =
      .ok (table, warnings)) :
    Fed args (w.settingsFor · s) parts (known ++ parts.flatMap rowNames) rows table := by
  induction parts generalizing known rows table warnings with
  | nil =>
    obtain ⟨rfl, -⟩ := Prod.mk.inj (Except.ok.inj h)
    exact ⟨by simpa using hlen, List.prefix_rfl, fun c hc => nomatch hc⟩
  | cons c rest ih =>
    obtain ⟨hinputs, hrest⟩ := Composition.unresolved?_cons.1 hresolved
    obtain ⟨read, hread, h⟩ := bind_eq_ok.1 h
    obtain ⟨out, hout, h⟩ := bind_eq_ok.1 h
    obtain ⟨⟨table', warnings'⟩, hrun, h⟩ := bind_eq_ok.1 h
    obtain ⟨rfl, -⟩ := Prod.mk.inj (Except.ok.inj h)
    have hcount := (hparts c List.mem_cons_self).length_compute hout
    rw [List.flatMap_cons] at hnew hold
    obtain ⟨hown, hnew, hdisjoint⟩ := List.nodup_append.1 hnew
    have hrows := ih (fun p hp => hparts p (List.mem_cons_of_mem c hp)) hnew
      (fun v hv hvp => (List.mem_append.1 hv).elim
        (fun hv => hold v hv (List.mem_append_right _ hvp))
        fun hv => hdisjoint v hv v hvp rfl) hrest
      (by rw [List.length_append, List.length_append, hlen, hcount]) hrun
    rw [List.append_assoc, ← List.flatMap_cons] at hrows
    obtain ⟨more, htable⟩ := hrows.given_isPrefix
    rw [List.append_assoc] at htable
    refine ⟨hrows.size, ⟨_, htable⟩,
      List.forall_mem_cons.2 ⟨⟨read, out, ?_, hout, ?_⟩, hrows.fed⟩⟩
    · rw [← htable, rowsAt_known hinputs hlen, hread]
    · rw [← htable, List.flatMap_cons]
      exact rowsAt_new (fun v hv hk => hold v hk (List.mem_append_left _ hv)) hown hlen hcount

end Component

namespace Composition

variable {d : Composition K} {ordered : List (Component K)}

open Component

theorem knownNames_wiring : knownNames (d.wiring ordered) ordered =
    (d.wholeSignature ordered).inputs ++ ordered.flatMap rowNames := by
  rw [knownNames, signature_wiring_inputs]

/-- A name is repeated among the rows only if the inputs repeat it. -/
theorem count_knownNames (hparts : ∀ c ∈ ordered, c.Composed)
    (horder : Item.InOrder (ordered.map fun c => c.signature.item))
    (hfault : d.fault? ordered = none) (v : String) :
    (knownNames (d.wiring ordered) ordered).count v ≤ 1 ↔
      (d.wiring ordered).signature.inputs.count v ≤ 1 := by
  rw [knownNames_wiring, signature_wiring_inputs, List.count_append]
  by_cases hv : v ∈ (d.wholeSignature ordered).inputs
  · rw [List.count_eq_zero.2 (inputs_notMem hparts hfault hv), Nat.add_zero]
  · have honce := List.nodup_iff_count_le_one.1 (nodup_rowNames hparts horder) v
    simp [List.count_eq_zero.2 hv, honce]

/-- The index of a model's rows. Parts are fed, and the model returns, the rows at the first places
of their names. These are the only ones, and those that the index gives, exactly if the inputs
repeat no name, as they never do by default. The place that the index gives is the last in any case,
and it is the first for each name that the inputs do not repeat. -/
theorem variableIndex_of_build (hparts : ∀ c ∈ d.parts, c.Composed) {c : Component K}
    (built : d.build = .ok c) :
    ∃ w ordered, c = .model w ordered ∧ (d.inputs = none → w.signature.inputs.Nodup) ∧
      ((knownNames w ordered).Nodup ↔ w.signature.inputs.Nodup) ∧
      (∀ v ∈ knownNames w ordered, ∃ k, (variableIndex w ordered).lookup v = some k ∧
        (knownNames w ordered)[k]? = some v ∧
        (∀ j, (knownNames w ordered)[j]? = some v → j ≤ k) ∧
        (k = (knownNames w ordered).idxOf v ↔ w.signature.inputs.count v ≤ 1)) ∧
      w.inputPlaces = ordered.map (fun p =>
        p.signature.inputs.map ((knownNames w ordered).idxOf ·)) ∧
      w.outputPlaces = c.rowNames.map ((knownNames w ordered).idxOf ·) ∧
      ∀ {n t : Nat} {args : RunArguments K} {s : Settings K} {rows : List (Grid [n, t] K)}
        {out : Outcome n t K}, rows.length = w.signature.inputs.length →
        c.compute args s rows = .ok out → ∃ table,
          Fed args (w.settingsFor · s) ordered (knownNames w ordered) rows table ∧
          rowsAt table (c.rowNames.map ((knownNames w ordered).idxOf ·)) = .ok out.rows := by
  obtain ⟨-, ordered, hordered, hfault, rfl⟩ := build_eq_ok.1 built
  obtain ⟨hperm, horder⟩ := order_eq_ok hordered
  have hcomposed : ∀ p ∈ ordered, p.Composed := fun p hp => hparts p (hperm.mem_iff.1 hp)
  have hcount := count_knownNames hcomposed horder hfault
  have hresolved := (fault?_eq_none.1 hfault).2.2.1
  have hreturned : (d.wiring ordered).outputPlaces =
      (Component.model (d.wiring ordered) ordered).rowNames.map
        ((knownNames (d.wiring ordered) ordered).idxOf ·) := by
    rw [knownNames_wiring]
    rfl
  refine ⟨_, _, rfl, fun hinputs => ?_, ?_, fun v hv => ?_, ?_, hreturned, fun hlen hout => ?_⟩
  · rw [signature_wiring_inputs]
    exact nodup_inputs hinputs ordered
  · rw [List.nodup_iff_count_le_one, List.nodup_iff_count_le_one]
    exact forall_congr' hcount
  · exact ⟨_, lookup_lastPlaces hv, getElem?_lastPlace hv, fun _ => le_lastPlace,
      (lastPlace_eq_idxOf hv).trans (hcount v)⟩
  · rw [knownNames_wiring]
    exact inputPlaces_eq hresolved
  · obtain ⟨-, -, table, htable, hrows⟩ := compute_model_eq_ok.1 hout
    rw [signature_wiring_inputs] at hlen
    refine ⟨table, ?_, hreturned ▸ hrows⟩
    rw [knownNames_wiring]
    exact fed_of_computeAll hcomposed (nodup_rowNames hcomposed horder)
      (fun v hv => inputs_notMem hcomposed hfault hv) hresolved hlen htable

def twofold : Composition Float where
  name := some "twofold"
  parts := [.bucket doubling]
  sort := true
  inputs := some ["x", "x"]
  outputs := none
  settings := []

/-- An input that is repeated is read at its first place and indexed at its last. -/
theorem twofold_index : ∃ w ordered, twofold.build = .ok (.model w ordered) ∧
    w.inputPlaces = [[0]] ∧ variableIndex w ordered = [("x", 1), ("a", 2)] := by
  refine ⟨_, [.bucket doubling], build_eq_ok.2 ⟨⟨by simp [twofold], rfl⟩, _, rfl,
    fault?_eq_none.2 ⟨?_, ?_, ?_, ?_, ?_⟩, rfl⟩, rfl, rfl⟩
  · exact Signature.stateAndOutput?_eq_none.2 (by decide)
  · exact inputsProduced?_eq_none.2 (by decide)
  · rfl
  · rfl
  · exact unknownSettings?_eq_none.2 (by decide)

end Composition

end Catchment
