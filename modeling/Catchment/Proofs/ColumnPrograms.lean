import Catchment.Proofs.ElementwiseLaws
import Catchment.Proofs.EntrywiseLaws

/-!
# Programs column by column

A program of formulas, of laws that compute entry by entry and of networks that compute column by
column returns over nodes and times, at every time, what it returns over the nodes alone at that
time, and is refused where it is refused at some time. Parameters of the nodes are given an axis of
length 1 for the times: whether the numbers of nodes and times agree does not matter.
-/
namespace Catchment

variable {K : Type} {T : Nat} {w : Shape}

/-- Formulas act entry by entry; laws and networks may do so. -/
def Declaration.ActsEntrywise [Scalar K] (weights : Weights K) : Declaration K → Prop
  | flux f => ∀ law ∈ f.law, law.ActsEntrywise (f.inputs.length + f.params.length) f.outputs.length
  | state _ => True
  | neural n => ∀ given theta, weights.lookup n.network = some given →
      given.toTensor = .ok theta → n.law.ActsOnColumns theta

theorem Shape.size_withTimeAxis (n : Nat) : size [n] = size [n, 1] := rfl

theorem Shape.size_snoc (s : Shape) (n : Nat) : size (s ++ [n]) = s.size * n := by
  induction s with
  | nil => simp
  | cons m s ih => rw [List.cons_append, size_cons, size_cons, ih, Nat.mul_assoc]

namespace Declaration

variable [Scalar K] {params env : Bindings K} {args envs : Fin T → Bindings K}

theorem bindFormulas_sliced (hp : params.Sliced args) (fs : List (String × Expr K))
    (he : env.Sliced envs) : Agree Bindings.Sliced (bindFormulas params fs env) fun t =>
      bindFormulas (args t) fs (envs t) := by
  induction fs generalizing env envs with
  | nil => exact ⟨envs, he, fun _ => rfl⟩
  | cons f fs ih =>
    exact agree_bind (Expr.eval_sliced he hp f.2) fun v c hv => ih (he.cons hv f.1)

omit [Scalar K] in
theorem bindAll_sliced (he : env.Sliced envs) (names : List String) {vs : List (Values K)}
    {cs : List (Fin T → Values K)} (hvs : List.Forall₂ Values.Sliced vs cs) :
    (bindAll env names vs).Sliced fun t => bindAll (envs t) names (cs.map (· t)) := by
  induction hvs generalizing names env envs with
  | nil => simpa [bindAll] using he
  | cons hv hvs ih => cases names with
    | nil => exact he
    | cons name names => exact ih (he.cons hv name) names

omit [Scalar K] in
/-- What names stand for, one value for each name. -/
theorem lookup_sliced (he : env.Sliced envs) (names : List String) :
    Agree (fun vs d => vs.length = names.length ∧
      ∃ cs, List.Forall₂ Values.Sliced vs cs ∧ ∀ t, d t = cs.map (· t))
      (lookup names env) fun t => lookup names (envs t) :=
  (agree_mapM fun name _ => he.lookup_agree name).self.imp fun _ _ h =>
    ⟨(mapM_eq_ok.1 h.1).length_eq.symm, h.2⟩

omit [Scalar K] in
theorem bindLaw_sliced {f : Flux K} {law : Law K}
    (hlaw : law.ActsEntrywise (f.inputs.length + f.params.length) f.outputs.length)
    (hp : params.Sliced args) (he : env.Sliced envs) :
    Agree Bindings.Sliced (bindLaw f law params env) fun t => bindLaw f law (args t) (envs t) := by
  obtain ⟨fs, hfs⟩ := hlaw
  refine agree_bind (lookup_sliced he f.inputs) fun inputs ds hinputs => ?_
  obtain ⟨hinputsLength, cs, hcs, hds⟩ := hinputs
  refine agree_bind (lookup_sliced hp f.params) fun given es hgiven => ?_
  obtain ⟨hgivenLength, cs', hcs', hes⟩ := hgiven
  have happend (t : Fin T) : ds t ++ es t = (cs ++ cs').map (· t) := by
    rw [hds, hes, List.map_append]
  have hlength : (inputs ++ given).length = f.inputs.length + f.params.length := by
    rw [List.length_append, hinputsLength, hgivenLength]
  have hparts : Agree (fun vs d => ∃ cs, List.Forall₂ Values.Sliced vs cs ∧
      ∀ t, d t = cs.map (· t))
      (law.apply (inputs ++ given) >>= fun result => result.parts f.outputs.length)
      fun t => law.apply (ds t ++ es t) >>= fun result => result.parts f.outputs.length := by
    refine (agree_mapM (f := fun g : EntryFunction K => g.apply (inputs ++ given))
      (g := fun t g => g.apply ((cs ++ cs').map (· t)))
      fun g _ => g.apply_sliced (List.rel_append hcs hcs')).of_toOption (hfs _ hlength).symm
        fun t => ?_
    rw [happend, hfs _ (by simpa [hcs.length_eq, hcs'.length_eq] using hlength)]
  have hbound : Agree Bindings.Sliced
      ((law.apply (inputs ++ given) >>= fun result => result.parts f.outputs.length) >>=
        fun parts => if parts.length != f.outputs.length then
          mismatched (.valueCount f.name parts.length f.outputs)
        else return bindAll env f.outputs parts)
      fun t => (law.apply (ds t ++ es t) >>= fun result => result.parts f.outputs.length) >>=
        fun parts => if parts.length != f.outputs.length then
          mismatched (.valueCount f.name parts.length f.outputs)
        else return bindAll (envs t) f.outputs parts := by
    refine agree_bind hparts fun parts slices hslices => ?_
    obtain ⟨cs, hcs, hslices⟩ := hslices
    have hcount (t : Fin T) : (slices t).length = parts.length := by
      rw [hslices, List.length_map, hcs.length_eq]
    simp only [hcount]
    split
    · exact agree_error _ fun t => ⟨_, rfl⟩
    · simp only [hslices]
      exact ⟨_, bindAll_sliced he f.outputs hcs, fun _ => rfl⟩
  simpa only [bind_assoc] using hbound

/-- Rows over the cells of a shape, one after the other. -/
def flat {s : Shape} (rows : List (Grid s K)) : Tensor K :=
  .ofGrid (Grid.stack (rows.map fun g => g.reshape (Shape.size_flat s)))

def rowsOf (s : Shape) (names : List String) (env : Bindings K) : Except Fault (List (Grid s K)) :=
  names.mapM fun o => do
    let v ← Values.orFault .unknownName (env.lookup o)
    Values.orFault .value (v.tensor.repeat? s)

omit [Scalar K] in
theorem reshape_reshape {s u : Shape} (g : Grid s K) (h : s.size = u.size) :
    (g.reshape h).reshape h.symm = g := by
  cases g
  simp [Grid.reshape]

omit [Scalar K] in
/-- A table with a column for each cell consists of rows over the cells. -/
theorem flat_eq_iff {s : Shape} {k : Nat} {rows : List (Grid s K)} {y : Grid [k, s.size] K} :
    flat rows = .ofGrid y ↔ rows = y.rows.map (·.reshape (Shape.size_flat s).symm) := by
  rw [flat, Tensor.ofGrid_stack_iff]
  constructor
  · intro h
    simp [h, Function.comp_def, reshape_reshape]
  · rintro rfl
    simp [Function.comp_def, reshape_reshape]

omit [Scalar K] in
/-- Rows over the cells of a shape as a table with a column for each cell. -/
theorem exists_table {s : Shape} {k m : Nat} {rows : List (Grid s K)} (hk : rows.length = k)
    (hm : s.size = m) : ∃ table : Grid [k, m] K, flat rows = .ofGrid table ∧
      ∀ (r : Fin rows.length) (i : Index s) (j : Fin m), j.val = i.rank.val →
        table.get (.cons (r.cast hk) (.node j)) = (rows.get r).get i := by
  subst hk hm
  refine ⟨Grid.ofRows fun r => (rows.get r).reshape (Shape.size_flat s),
    Tensor.ofGrid_stack ?_, fun r i j hj => ?_⟩
  · refine List.ext_getElem (by simp [Grid.rows]) fun r hr hr' => Grid.ext_get fun i => ?_
    simp [Grid.rows]
  · obtain rfl : j = i.rank := Fin.ext hj
    exact (Grid.get_ofRows _ r _).trans (get_reshape_node _ _ i)

/-- A network binds as many rows as it has outputs. -/
theorem bindNetwork_eq_ok_flat {s : Shape} {n : NeuralFlux K} {weights : Weights K}
    {env' : Bindings K} : bindNetwork s n weights env = .ok env' ↔
      ∃ (rows : List (Grid s K)) (given : Nested K) (theta : Tensor K) (outs : List (Grid s K)),
        rowsOf s n.inputs env = .ok rows ∧ rows ≠ [] ∧
        weights.lookup n.network = some given ∧ given.toTensor = .ok theta ∧
        (∀ count ∈ n.weights, count = theta.size) ∧
        n.law.apply (flat rows) theta = .ok (flat outs) ∧ outs.length = n.outputs.length ∧
        env' = bindAll env n.outputs (outs.map Values.ofGrid) := by
  have hrows (rows : List (Grid s K)) : rowsOf s n.inputs env = .ok rows ↔
      ∃ vs, lookup n.inputs env = .ok vs ∧
        (vs.mapM fun v => Values.orFault .value (v.tensor.repeat? s)) = .ok rows := by
    rw [rowsOf, lookup, mapM_mapM_eq_ok, mapM_eq_ok]
    simp only [bind_eq_ok]
  rw [bindNetwork_eq_ok]
  constructor
  · rintro ⟨vs, rows, given, theta, y, hvs, hread, hne, hgiven, htheta, hcount, hy, rfl⟩
    refine ⟨rows, given, theta, _, (hrows rows).2 ⟨vs, hvs, hread⟩, hne, hgiven, htheta, hcount,
      hy.trans (congrArg Except.ok (flat_eq_iff.2 rfl).symm), by simp [Grid.rows], ?_⟩
    rw [List.map_map]
    rfl
  · rintro ⟨rows, given, theta, outs, hread, hne, hgiven, htheta, hcount, hy, hlen, rfl⟩
    obtain ⟨vs, hvs, hread⟩ := (hrows rows).1 hread
    obtain ⟨y, hflat, -⟩ := exists_table hlen rfl
    refine ⟨vs, rows, given, theta, y, hvs, hread, hne, hgiven, htheta, hcount,
      hy.trans (congrArg Except.ok hflat), ?_⟩
    rw [flat_eq_iff.1 hflat, List.map_map]
    rfl

omit [Scalar K] in
theorem rowsOf_sliced (he : env.Sliced envs) (names : List String) :
    Agree (fun rows d => ∀ t, d t = rows.map (·.column t)) (rowsOf (w ++ [T]) names env) fun t =>
      rowsOf w names (envs t) := by
  have hrow (o : String) (_ : o ∈ names) : Agree (fun (g : Grid (w ++ [T]) K) d =>
      ∀ t, d t = g.column t)
      (do
        let v ← Values.orFault .unknownName (env.lookup o)
        Values.orFault .value (v.tensor.repeat? (w ++ [T])))
      (fun t => do
        let v ← Values.orFault .unknownName ((envs t).lookup o)
        Values.orFault .value (v.tensor.repeat? w)) := by
    refine agree_bind (he.lookup_agree o) fun v c hv => ?_
    obtain ⟨d, hd, rfl⟩ := hv
    exact hd.repeat?
  refine (agree_mapM hrow).imp fun rows d hd t => ?_
  obtain ⟨cs, hcs, hd⟩ := hd
  rw [hd, ← List.forall₂_eq_eq_eq, List.forall₂_map_left_iff, List.forall₂_map_right_iff]
  exact hcs.flip.imp fun c g h => h t

omit [Scalar K] in
/-- Over a shape that has cells a network computes what it computes for each of them. -/
theorem apply_flat {law : NetworkLaw K} {theta : Tensor K} (h : law.ActsOnColumns theta) :
    ∃ f : List K → Option (List K), ∀ {s : Shape} (rows outs : List (Grid s K)), 0 < s.size →
      (law.apply (flat rows) theta = .ok (flat outs) ↔
        ∀ i, f (rows.map (·.get i)) = some (outs.map (·.get i))) := by
  obtain ⟨f, hf⟩ := h
  refine ⟨f, fun {s} rows outs hs => ?_⟩
  have hcolumn (rows : List (Grid s K)) (i : Index s) :
      (Grid.stack (rows.map (·.reshape (Shape.size_flat s)))).nodeColumn i.rank =
        rows.map (·.get i) := by
    rw [Grid.nodeColumn, Grid.rows_stack, List.map_map]
    exact List.map_congr_left fun g _ => get_reshape_node g _ i
  rw [flat, flat, hf _ hs]
  constructor
  · intro hall i
    rw [← hcolumn rows, ← hcolumn outs]
    exact hall i.rank
  · intro hall j
    rw [← Index.rank_unrank j, hcolumn, hcolumn]
    exact hall _

omit [Scalar K] in
/-- Over shapes without cells only the number of rows counts. -/
theorem flat_eq_of_empty {s u : Shape} (hs : s.size = 0) (hu : u.size = 0) {rows : List (Grid s K)}
    {rows' : List (Grid u K)} (h : rows.length = rows'.length) : flat rows = flat rows' := by
  have hnone {s : Shape} (hs : s.size = 0) (rows : List (Grid s K)) : (flat rows).toList = [] := by
    refine List.length_eq_zero_iff.1 ((Vector.length_toList ..).trans ?_)
    simp [flat, Tensor.ofGrid, hs]
  refine Tensor.ext_toList ?_ ((hnone hs rows).trans (hnone hu rows').symm)
  simp [flat, Tensor.ofGrid, hs, hu, h]

omit [Scalar K] in
/-- A network computes a table over nodes and times if it computes its columns over the nodes. -/
theorem apply_flat_snoc {law : NetworkLaw K} {theta : Tensor K} (h : law.ActsOnColumns theta)
    (hT : 0 < T) (rows outs : List (Grid (w ++ [T]) K)) :
    law.apply (flat rows) theta = .ok (flat outs) ↔
      ∀ t, law.apply (flat (rows.map (·.column t))) theta =
        .ok (flat (outs.map (·.column t))) := by
  have hsize := Shape.size_snoc w T
  rcases Nat.eq_zero_or_pos w.size with hw | hw
  · have hwhole : Shape.size (w ++ [T]) = 0 := by rw [hsize, hw, Nat.zero_mul]
    have hsame (rows : List (Grid (w ++ [T]) K)) (t : Fin T) :
        flat (rows.map (·.column t)) = flat rows := flat_eq_of_empty hw hwhole (by simp)
    simp only [hsame]
    exact ⟨fun hlaw _ => hlaw, fun hlaw => hlaw ⟨0, hT⟩⟩
  · obtain ⟨f, hf⟩ := apply_flat h
    have hwhole : 0 < Shape.size (w ++ [T]) := by
      rw [hsize]
      exact Nat.mul_pos hw hT
    simp only [hf _ _ hw, hf _ _ hwhole, List.map_map, Function.comp_def, Grid.get_column]
    constructor
    · exact fun hall t j => hall (j.snoc t)
    · intro hall i
      have hi := hall i.last i.init
      simpa only [Index.snoc_init_last] using hi

omit [Scalar K] in
/-- Lists of columns are the columns of a list of rows. -/
theorem exists_columns {k : Nat} {cs : Fin T → List (Grid w K)} (h : ∀ t, (cs t).length = k) :
    ∃ rows : List (Grid (w ++ [T]) K), rows.length = k ∧ ∀ t, rows.map (·.column t) = cs t := by
  refine ⟨List.ofFn fun i : Fin k => Grid.ofColumns fun t => (cs t).get (i.cast (h t).symm),
    by simp, fun t => List.ext_getElem (by simp [h]) fun i hi hi' => Grid.ext_get fun j => ?_⟩
  simp

/-- A network that is applied over nodes and times is applied over the nodes at every time. -/
theorem bindNetwork_columns {n : NeuralFlux K} {weights : Weights K}
    (hlaw : ActsEntrywise weights (.neural n)) (he : env.Sliced envs) {env' : Bindings K}
    (h : bindNetwork (w ++ [T]) n weights env = .ok env') :
    ∃ envs', env'.Sliced envs' ∧ ∀ t, bindNetwork w n weights (envs t) = .ok (envs' t) := by
  obtain ⟨rows, given, theta, outs, hread, hne, hgiven, htheta, hcount, hy, hlen, rfl⟩ :=
    bindNetwork_eq_ok_flat.1 h
  have hrows := rowsOf_sliced (w := w) he n.inputs
  rw [hread] at hrows
  obtain ⟨d, hd, hcolumns⟩ := hrows
  refine ⟨_, bindAll_sliced he n.outputs (Values.forall₂_sliced_ofGrid outs), fun t => ?_⟩
  refine bindNetwork_eq_ok_flat.2 ⟨_, given, theta, outs.map (·.column t), hcolumns t, ?_, hgiven,
    htheta, hcount, ?_, by simpa using hlen, by simp [List.map_map, Function.comp_def]⟩
  · simpa [hd] using hne
  · rw [hd]
    exact (apply_flat_snoc (hlaw given theta hgiven htheta) t.pos rows outs).1 hy t

/-- A network that is applied over the nodes at every time is applied over nodes and times. -/
theorem bindNetwork_of_columns {n : NeuralFlux K} {weights : Weights K}
    (hlaw : ActsEntrywise weights (.neural n)) (he : env.Sliced envs) (t₀ : Fin T)
    {envs' : Fin T → Bindings K} (h : ∀ t, bindNetwork w n weights (envs t) = .ok (envs' t)) :
    ∃ env', bindNetwork (w ++ [T]) n weights env = .ok env' := by
  simp only [bindNetwork_eq_ok_flat] at h
  choose cols given theta outs hread hne hgiven htheta hcount hy hlen henv using h
  obtain ⟨rows, hrows, hcols⟩ := (rowsOf_sliced he n.inputs).eq_ok ⟨t₀⟩ hread
  obtain ⟨table, htable, hcolumns⟩ := exists_columns hlen
  have hgiven' (t : Fin T) : given t = given t₀ :=
    Option.some.inj ((hgiven t).symm.trans (hgiven t₀))
  have htheta' (t : Fin T) : theta t = theta t₀ := by
    refine Except.ok.inj ((htheta t).symm.trans ?_)
    rw [hgiven' t, htheta t₀]
  have hwhole : n.law.apply (flat rows) (theta t₀) = .ok (flat table) := by
    refine (apply_flat_snoc (hlaw _ _ (hgiven t₀) (htheta t₀)) t₀.pos rows table).2 fun t => ?_
    rw [← hcols, hcolumns, ← htheta' t]
    exact hy t
  have hne' : rows ≠ [] := by
    rintro rfl
    exact hne t₀ (hcols t₀)
  exact ⟨_, bindNetwork_eq_ok_flat.2 ⟨rows, given t₀, theta t₀, table, hrows, hne', hgiven t₀,
    htheta t₀, hcount t₀, hwhole, htable, rfl⟩⟩

theorem bindNetwork_sliced {n : NeuralFlux K} {weights : Weights K}
    (hlaw : ActsEntrywise weights (.neural n)) (he : env.Sliced envs) :
    Agree Bindings.Sliced (bindNetwork (w ++ [T]) n weights env) fun t =>
      bindNetwork w n weights (envs t) := by
  refine .intro (fun _ => bindNetwork_columns hlaw he) fun envs' hne hcolumns => ?_
  obtain ⟨t₀⟩ := hne
  exact bindNetwork_of_columns hlaw he t₀ hcolumns

omit [Scalar K] in
/-- A name of distinct names stands for what it was bound to. -/
theorem lookup_bindAll (env : Bindings K) {names : List String} (hn : names.Nodup)
    {vs : List (Values K)} {k : Nat}
    (hk : k < names.length) (hv : k < vs.length) :
    (bindAll env names vs).lookup names[k] = some vs[k] := by
  rw [bindAll_eq, List.lookup_append, lookup_reverse (nodup_keys_zip hn vs),
    lookup_zip_getElem hn hk hv]
  rfl

theorem bind_sliced {f : Declaration K} {weights : Weights K} (h : f.ActsEntrywise weights)
    (hp : params.Sliced args) (he : env.Sliced envs) :
    Agree Bindings.Sliced (f.bind (w ++ [T]) params weights env) fun t =>
      f.bind w (args t) weights (envs t) := by
  cases f with
  | flux f =>
    cases hlaw : f.law with
    | none =>
      simp only [bind, hlaw]
      exact bindFormulas_sliced hp _ he
    | some law =>
      simp only [bind, hlaw]
      exact bindLaw_sliced (h law hlaw) hp he
  | state d => exact bindFormulas_sliced hp _ he
  | neural n => exact bindNetwork_sliced h he

theorem foldlM_bind_sliced {fs : List (Declaration K)} {weights : Weights K}
    (h : ∀ f ∈ fs, f.ActsEntrywise weights) (hp : params.Sliced args) (he : env.Sliced envs) :
    Agree Bindings.Sliced
      (fs.foldlM (fun env f => f.bind (w ++ [T]) params weights env) env) fun t =>
        fs.foldlM (fun env f => f.bind w (args t) weights env) (envs t) := by
  induction fs generalizing env envs with
  | nil => exact ⟨envs, he, fun _ => rfl⟩
  | cons f fs ih =>
    simp only [List.foldlM_cons]
    exact agree_bind (bind_sliced (h f List.mem_cons_self) hp he) fun env' envs' he' =>
      ih (fun g hg => h g (List.mem_cons_of_mem f hg)) he'

end Declaration

theorem Grid.rows_column {α : Type} {l : Nat} (g : Grid (l :: (w ++ [T])) α) (t : Fin T) :
    (g.column (s := l :: w) t).rows = g.rows.map (·.column t) := by
  refine List.ext_getElem (by simp [rows]) fun k hk hk' => Grid.ext_get fun i => ?_
  simp only [rows, List.getElem_ofFn, List.getElem_map, get_row, get_column]
  exact get_column (s := l :: w) g t _

namespace Program

def nodeArguments {n : Nat} (params : List (String × Grid [n] K)) : Arguments K :=
  params.map fun p => (p.1, .ofTensor (.ofGrid p.2))

/-- Parameters of the nodes with an axis of length 1 for the times. -/
def timeArguments {n : Nat} (params : List (String × Grid [n] K)) : Arguments K :=
  params.map fun p => (p.1, .ofTensor (.ofGrid (p.2.reshape (Shape.size_withTimeAxis n))))

theorem sliced_timeArgument {n : Nat} (g : Grid [n] K) :
    (Tensor.ofGrid (g.reshape (Shape.size_withTimeAxis n))).Sliced fun _ : Fin T => .ofGrid g := by
  obtain ⟨a, ha⟩ : ∃ a, Shape.alignAxis? 1 T = some a := by
    by_cases hT : T = 1
    · exact ⟨_, dif_pos hT⟩
    · exact ⟨_, (dif_neg hT).trans (dif_pos rfl)⟩
  have hcolumn (t : Fin T) :
      (g.reshape (Shape.size_withTimeAxis n)).column (s := [n]) (a t) = g := by
    refine Grid.ext_get fun i => ?_
    have hrank : (Index.snoc i (a t)).rank.val = i.rank.val := by
      obtain ⟨i, -⟩ := i
      simp [Index.snoc, Index.rank]
    rw [Grid.get_column]
    simp only [Grid.get, Grid.reshape, Fin.getElem_fin, Vector.getElem_cast, hrank]
  have hsliced := Tensor.Sliced.along (s := [n]) (g.reshape (Shape.size_withTimeAxis n)) ha
  simp only [hcolumn] at hsliced
  exact hsliced

theorem lookup_nodeArguments {n : Nat} (params : List (String × Grid [n] K)) (k : String) :
    (nodeArguments params).lookup k = (params.lookup k).map fun g => .ofTensor (.ofGrid g) :=
  lookup_map_snd (fun g => Nested.ofTensor (.ofGrid g)) params k

theorem lookup_timeArguments {n : Nat} (params : List (String × Grid [n] K)) (k : String) :
    (timeArguments params).lookup k =
      (params.lookup k).map fun g => .ofTensor (.ofGrid (g.reshape (Shape.size_withTimeAxis n))) :=
  lookup_map_snd (fun g : Grid [n] K =>
    Nested.ofTensor (.ofGrid (g.reshape (Shape.size_withTimeAxis n)))) params k

variable [Scalar K]

theorem convert_sliced {n : Nat} (params : List (String × Grid [n] K)) (names : List String) :
    Agree Bindings.Sliced (convert (timeArguments params) names) fun _ : Fin T =>
      convert (nodeArguments params) names := by
  have hvalue (k : String) (_ : k ∈ names) :
      Agree (fun p q => ∃ c, Values.Sliced p.2 c ∧ ∀ t : Fin T, q t = (p.1, c t))
        (do
          let a ← Values.orFault .unknownName ((timeArguments params).lookup k)
          return (k, Values.ofTensor (← a.toTensor)))
        (fun _ => do
          let a ← Values.orFault .unknownName ((nodeArguments params).lookup k)
          return (k, Values.ofTensor (← a.toTensor))) := by
    rw [lookup_timeArguments, lookup_nodeArguments]
    cases params.lookup k with
    | none => exact agree_error _ fun t => ⟨_, rfl⟩
    | some g => exact ⟨_, ⟨_, ⟨_, sliced_timeArgument g, rfl⟩, fun _ => rfl⟩, fun _ => rfl⟩
  refine (agree_mapM hvalue).imp fun pairs d hd => ?_
  obtain ⟨qs, hqs, hd⟩ := hd
  obtain rfl : d = fun t => qs.map (· t) := funext hd
  clear hd
  induction hqs with
  | nil => exact .nil
  | cons hq _ ih =>
    obtain ⟨c, hc, hq⟩ := hq
    simpa only [List.map_cons, hq] using ih.cons hc _

/-- A program over rows with a last axis returns the rows of which it returns the columns. -/
theorem runElementwise_sliced {p : Program K} {weights : Weights K}
    (h : ∀ f ∈ p.fluxes, f.ActsEntrywise weights) {params : Bindings K} {args : Fin T → Bindings K}
    (hp : params.Sliced args) (rows : List (Grid (w ++ [T]) K)) :
    Agree (fun outs d => ∀ t, d t = outs.map (·.column t)) (p.runElementwise rows params weights)
      fun t => p.runElementwise (rows.map (·.column t)) (args t) weights := by
  have hinputs := Declaration.bindAll_sliced Bindings.Sliced.nil p.inputs
    (Values.forall₂_sliced_ofGrid rows)
  simp only [List.map_map, Function.comp_def] at hinputs
  refine agree_bind (Declaration.foldlM_bind_sliced h hp ?_) fun env envs he =>
    Declaration.rowsOf_sliced he p.outputs
  simpa only [inputBindings, List.map_map, Function.comp_def] using hinputs

theorem call_eq_elementwise {p : Program K} (hb : p.backend = .elementwise) {l : Nat} {s : Shape}
    (x : Grid (l :: s) K) (args : Arguments K) (weights : Weights K) :
    p.call (.ofTensor (.ofGrid x)) args weights =
      if l ≠ p.inputs.length then mismatched (.inputRows p.inputs (l :: s))
      else match p.missingParameter? args, p.missingWeights? weights with
        | some cause, _ => misconfigured cause
        | none, some cause => misconfigured cause
        | none, none => do
          let params ← convert args p.params
          let rows ← p.runElementwise x.rows params weights
          return .ofGrid (Grid.stack rows) := by
  have hx : (Nested.ofTensor (.ofGrid x)).toTensor = .ok (.ofGrid x) := rfl
  rw [call, hx, ok_bind]
  by_cases hl : l = p.inputs.length
  · cases p.missingParameter? args <;> cases p.missingWeights? weights <;>
      simp [Tensor.ofGrid, hl, run, hb]
  · simp [Tensor.ofGrid, hl]

theorem call_sliced {p : Program K} (hb : p.backend = .elementwise) {weights : Weights K}
    (h : ∀ f ∈ p.fluxes, f.ActsEntrywise weights) {l n : Nat} (x : Grid [l, n, T] K)
    (params : List (String × Grid [n] K)) :
    Agree (fun out d => ∃ y : Grid [p.outputs.length, n, T] K, out = Tensor.ofGrid y ∧
        ∀ t, d t = .ofGrid (y.column (s := [p.outputs.length, n]) t))
      (p.call (.ofTensor (.ofGrid x)) (timeArguments params) weights) fun t =>
        p.call (.ofTensor (.ofGrid (x.column (s := [l, n]) t))) (nodeArguments params) weights := by
  have hmissing : p.missingParameter? (timeArguments params) =
      p.missingParameter? (nodeArguments params) := by
    simp only [missingParameter?, lookup_timeArguments, lookup_nodeArguments, Option.isNone_map]
  have hrows (t : Fin T) : (x.column (s := [l, n]) t).rows = x.rows.map (·.column (s := [n]) t) :=
    Grid.rows_column (w := [n]) x t
  simp only [call_eq_elementwise hb, hmissing, hrows]
  split
  · exact agree_error _ fun t => ⟨_, rfl⟩
  split
  · exact agree_error _ fun t => ⟨_, rfl⟩
  · exact agree_error _ fun t => ⟨_, rfl⟩
  refine agree_bind (convert_sliced params p.params) fun bound args hbound => ?_
  refine agree_bind (runElementwise_sliced (w := [n]) h hbound x.rows).self fun outs d hd => ?_
  obtain ⟨hrun, hd⟩ := hd
  have hlen : outs.length = p.outputs.length := by
    obtain ⟨env, -, houts⟩ := bind_eq_ok.1 hrun
    exact (mapM_eq_ok.1 houts).length_eq.symm
  obtain rfl : d = fun t => outs.map (·.column (s := [n]) t) := funext hd
  let y : Grid [p.outputs.length, n, T] K := Grid.ofRows fun k => outs.get (k.cast hlen.symm)
  have hy : y.rows = outs :=
    List.ext_getElem (by simp [Grid.rows, hlen]) fun k hk hk' => Grid.ext_get fun i => by
      simp [y, Grid.rows]
  refine ⟨fun t => .ofGrid (Grid.stack (outs.map (·.column (s := [n]) t))),
    ⟨y, Tensor.ofGrid_stack hy, fun t => Tensor.ofGrid_stack ?_⟩, fun t => rfl⟩
  exact (Grid.rows_column (w := [n]) y t).trans (congrArg _ hy)

end Program

/-- A network applied over nodes and times: under the weights as they were given, to a table whose
column of a node and a time holds what its inputs are there, and each row of the table that it
returns is bound as an output, over the nodes and times of its columns. -/
def NeuralFlux.Applied [Scalar K] (nf : NeuralFlux K) (n T : Nat) (weights : Weights K)
    (env env' : Bindings K) : Prop :=
  ∃ (given : Nested K) (theta : Tensor K) (inputs outs : List (Grid [n, T] K))
    (table : Grid [inputs.length, n * T] K) (result : Grid [outs.length, n * T] K),
    weights.lookup nf.network = some given ∧ given.toTensor = .ok theta ∧
    Declaration.rowsOf [n, T] nf.inputs env = .ok inputs ∧
    nf.law.apply (.ofGrid table) theta = .ok (.ofGrid result) ∧
    (∀ (k : Fin inputs.length) (i : Fin n) (t : Fin T) (j : Fin (n * T)), j.val = i * T + t →
      table.get (.cons k (.node j)) = (inputs.get k).get (.nodeTime i t)) ∧
    outs.length = nf.outputs.length ∧
    ∀ (k : Fin outs.length) (o : String), nf.outputs[k.val]? = some o →
      env'.lookup o = some (.ofGrid (outs.get k)) ∧
      ∀ (i : Fin n) (t : Fin T) (j : Fin (n * T)), j.val = i * T + t →
        (outs.get k).get (.nodeTime i t) = result.get (.cons k (.node j))

theorem NeuralFlux.nodup_outputs (nf : NeuralFlux K) : nf.outputs.Nodup := by
  have h := List.findSome?_eq_none_iff.1 nf.accepted
  simp only [List.mem_cons, List.not_mem_nil, or_false, forall_eq_or_imp, forall_eq, id] at h
  exact repeated?_eq_none.1 (Option.map_eq_none_iff.1 h.2.2.1)

theorem Index.rank_nodeTime {n T : Nat} (i : Fin n) (t : Fin T) :
    (Index.nodeTime i t).rank.val = i * T + t := by
  simp [Index.rank, Index.nodeTime, Index.cons, Index.nil]

variable [Scalar K]

theorem NeuralFlux.applied_of_bind {nf : NeuralFlux K} {n T : Nat} {weights : Weights K}
    {env env' : Bindings K} (h : Declaration.bindNetwork [n, T] nf weights env = .ok env') :
    nf.Applied n T weights env env' := by
  obtain ⟨inputs, given, theta, outs, hread, -, hgiven, htheta, -, hy, hlen, rfl⟩ :=
    Declaration.bindNetwork_eq_ok_flat.1 h
  have hsize : Shape.size [n, T] = n * T := by simp [Shape.size]
  obtain ⟨table, htable, htableGet⟩ := Declaration.exists_table (Eq.refl inputs.length) hsize
  obtain ⟨result, hresult, hresultGet⟩ := Declaration.exists_table (Eq.refl outs.length) hsize
  refine ⟨given, theta, inputs, outs, table, result, hgiven, htheta, hread, ?_,
    fun k i t j hj => htableGet k _ j (hj.trans (Index.rank_nodeTime i t).symm), hlen,
    fun k o ho => ⟨?_, fun i t j hj =>
      (hresultGet k _ j (hj.trans (Index.rank_nodeTime i t).symm)).symm⟩⟩
  · rwa [← htable, ← hresult]
  · obtain ⟨hk, rfl⟩ := List.getElem?_eq_some_iff.1 ho
    have hrow : k.val < (outs.map Values.ofGrid).length := by simp
    have hlookup := Declaration.lookup_bindAll env nf.nodup_outputs hk hrow
    simpa using hlookup

namespace Program

/-- A network that is reached in a call over nodes and times is applied to all of them at once. -/
theorem applied_of_call {p : Program K} (hb : p.backend = .elementwise) {weights : Weights K}
    {l n T : Nat} {x : Grid [l, n, T] K} {args : Arguments K} {out : Tensor K}
    (h : p.call (.ofTensor (.ofGrid x)) args weights = .ok out)
    {before after : List (Declaration K)} {nf : NeuralFlux K}
    (hfluxes : p.fluxes = before ++ .neural nf :: after) :
    ∃ params env env', convert args p.params = .ok params ∧
      before.foldlM (fun env f => f.bind [n, T] params weights env)
        (inputBindings p.inputs x.rows) = .ok env ∧
      (Declaration.neural nf).bind [n, T] params weights env = .ok env' ∧
      nf.Applied n T weights env env' := by
  rw [call_eq_elementwise hb] at h
  split at h
  · cases h
  split at h
  · cases h
  · cases h
  obtain ⟨params, hparams, h⟩ := bind_eq_ok.1 h
  obtain ⟨rows, hrows, -⟩ := bind_eq_ok.1 h
  obtain ⟨final, hfinal, -⟩ := bind_eq_ok.1 hrows
  rw [hfluxes, List.foldlM_append] at hfinal
  obtain ⟨env, henv, hfinal⟩ := bind_eq_ok.1 hfinal
  rw [List.foldlM_cons] at hfinal
  obtain ⟨env', henv', -⟩ := bind_eq_ok.1 hfinal
  exact ⟨params, env, env', hparams, henv, henv', NeuralFlux.applied_of_bind henv'⟩

/-- Over nodes and times, with parameters of shape `[n, 1]`, a program of elementwise functions and
columnwise networks returns at every time what it returns over the nodes alone at that time, with
parameters of shape `[n]`; it is refused only where it is refused at some time. Every network is
applied once to all nodes and times, with its weights as they were given. -/
theorem call_columns {p : Program K} (hb : p.backend = .elementwise) {weights : Weights K}
    (h : ∀ f ∈ p.fluxes, f.ActsEntrywise weights) {l n T : Nat} (x : Grid [l, n, T] K)
    (params : List (String × Grid [n] K)) :
    (∀ out, p.call (.ofTensor (.ofGrid x)) (timeArguments params) weights = .ok out →
      (∃ y : Grid [p.outputs.length, n, T] K, out = .ofGrid y ∧
        ∀ t, p.call (.ofTensor (.ofGrid (x.column (s := [l, n]) t))) (nodeArguments params)
          weights = .ok (.ofGrid (y.column (s := [p.outputs.length, n]) t))) ∧
      ∀ (before after : List (Declaration K)) (nf : NeuralFlux K),
        p.fluxes = before ++ .neural nf :: after →
        ∃ bound env env', convert (timeArguments params) p.params = .ok bound ∧
          before.foldlM (fun env f => f.bind [n, T] bound weights env)
            (inputBindings p.inputs x.rows) = .ok env ∧
          (Declaration.neural nf).bind [n, T] bound weights env = .ok env' ∧
          nf.Applied n T weights env env') ∧
    (0 < T → (∀ t, ∃ out, p.call (.ofTensor (.ofGrid (x.column (s := [l, n]) t)))
        (nodeArguments params) weights = .ok out) →
      ∃ out, p.call (.ofTensor (.ofGrid x)) (timeArguments params) weights = .ok out) := by
  have hagree := call_sliced hb h x params
  refine ⟨fun out hout => ⟨?_, fun before after nf => applied_of_call hb hout⟩, fun hT hall => ?_⟩
  · rw [hout] at hagree
    obtain ⟨d, ⟨y, hy, hd⟩, hcolumns⟩ := hagree
    exact ⟨y, hy, fun t => (hcolumns t).trans (congrArg Except.ok (hd t))⟩
  · choose outs houts using hall
    obtain ⟨out, hout, -⟩ := hagree.eq_ok ⟨⟨0, hT⟩⟩ houts
    exact ⟨out, hout⟩

def scaling : NeuralFlux Float :=
  ⟨⟨"scaling", ["hi", "lo"], ["u", "v"], "net", NetworkLaw.scale2, some 2⟩, by decide⟩

def scaledBand : Program Float where
  backend := .elementwise
  fluxes := [
    .flux ⟨⟨"band", ["lo", "hi"], ["x"], ["k"], [], some Law.lohi⟩, by decide⟩,
    .neural scaling,
    .flux ⟨⟨"yield", ["q"], ["v"], ["k"], [.binary .mul (.var "v") (.par "k")], none⟩, by decide⟩]
  inputs := ["x"]
  outputs := ["q", "u"]
  accepted := by decide

/-- As many times as nodes, and another width of the band at every node. -/
theorem scaledBand_columns :
    let x : Grid [1, 2, 2] Float := ⟨#v[1, 2, 3, 4]⟩
    let params : List (String × Grid [2] Float) := [("k", ⟨#v[1, 2]⟩)]
    let weights : Weights Float := [("net", .ofTensor (.ofGrid (⟨#v[2, 3]⟩ : Grid [2] Float)))]
    ∃ y : Grid [2, 2, 2] Float, y.toList = [6, 9, 30, 36, 4, 6, 10, 12] ∧
      scaledBand.call (.ofTensor (.ofGrid x)) (timeArguments params) weights = .ok (.ofGrid y) ∧
      (∀ t, scaledBand.call (.ofTensor (.ofGrid (x.column (s := [1, 2]) t))) (nodeArguments params)
        weights = .ok (.ofGrid (y.column (s := [2, 2]) t))) ∧
      ∃ env env', scaling.Applied 2 2 weights env env' := by
  intro x params weights
  have hacts : ∀ f ∈ scaledBand.fluxes, f.ActsEntrywise weights := by
    intro f hf
    obtain rfl | rfl | rfl : _ ∨ _ ∨ _ := by simpa [scaledBand] using hf
    · rintro law ⟨⟩
      exact Law.lohi_actsEntrywise 2
    · intro given theta hgiven htheta
      obtain rfl := Option.some.inj hgiven
      obtain rfl := Except.ok.inj htheta
      exact NetworkLaw.scale2_actsOnColumns _
    · rintro law ⟨⟩
  have hcomputed : (scaledBand.call (.ofTensor (.ofGrid x)) (timeArguments params) weights).map
      Tensor.toList = .ok [6, 9, 30, 36, 4, 6, 10, 12] := by decide +kernel
  obtain ⟨out, hout⟩ : ∃ out, scaledBand.call (.ofTensor (.ofGrid x)) (timeArguments params)
      weights = .ok out := by
    cases hcall : scaledBand.call (.ofTensor (.ofGrid x)) (timeArguments params) weights with
    | ok out => exact ⟨out, rfl⟩
    | error e => simp [hcall, Except.map] at hcomputed
  rw [hout] at hcomputed
  obtain ⟨⟨y, rfl, hcolumns⟩, hnetworks⟩ := (call_columns rfl hacts x params).1 out hout
  obtain ⟨-, env, env', -, -, -, happlied⟩ := hnetworks [_] [_] scaling rfl
  exact ⟨y, Except.ok.inj hcomputed, hout, hcolumns, env, env', happlied⟩

end Program

end Catchment
