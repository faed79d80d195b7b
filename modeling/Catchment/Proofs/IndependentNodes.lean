import Catchment.Proofs.NamedRuns
import Catchment.Proofs.NodeArguments

/-!
# Independent nodes

Under a fixed-step solver the nodes of a bucket of formulas, or of a model of such buckets, do not
see each other: each slice of the result is the result of a single instance that is run on the slice
of the inputs, with the values that its node is given.
-/
namespace Catchment

variable {K : Type} [Scalar K] {l m n t : Nat}

namespace Component

/-- A bucket of formulas, or a model of such components that all run under one set of settings. -/
inductive OfFormulas : Component K → Prop
  | bucket {b : Bucket K} (hlaws : ∀ f ∈ b.fluxes, f.lawName? = none) : OfFormulas (.bucket b)
  | model {w : Wiring K} {parts : List (Component K)} (hsettings : w.settings = [])
      (hparts : ∀ c ∈ parts, OfFormulas c) : OfFormulas (.model w parts)

variable {c : Component K} {args : RunArguments K} {s : Settings K}

omit [Scalar K] in
theorem settingsFor_eq {w : Wiring K} (hsettings : w.settings = []) (name : String)
    (s : Settings K) : w.settingsFor name s = s := by
  rw [Wiring.settingsFor, hsettings]
  rfl

theorem checkAll_iff {w : Wiring K} (hsettings : w.settings = []) {parts : List (Component K)} :
    checkAll n t args w parts s = .ok () ↔ ∀ c ∈ parts, check n t args c s = .ok () := by
  induction parts with
  | nil => simp [checkAll]
  | cons c parts ih =>
    rw [checkAll, settingsFor_eq hsettings, List.forall_mem_cons, ← ih]
    cases check n t args c s with
    | ok u => simp
    | error e => simp

theorem check_bucket_eq_ok {b : Bucket K} :
    check n t args (.bucket b) s = .ok () ↔
      ∃ d : RunData n t K, RunData.prepare b.signature n t args s = .ok d := by
  simp [check, prepareFor, signature, bind_eq_ok]

theorem check_atNode (hc : c.OfFormulas) (hcheck : check n t args c s = .ok ()) (i : Fin n) :
    check 1 t (args.atNode s i) c s.withoutClasses = .ok () := by
  induction hc with
  | bucket hlaws =>
    obtain ⟨d, hd⟩ := check_bucket_eq_ok.1 hcheck
    exact check_bucket_eq_ok.2 ⟨_, RunData.prepare_atNode (Bucket.networks_eq_nil hlaws) hd i⟩
  | model hsettings hparts ih =>
    rw [check, checkAll_iff hsettings] at hcheck ⊢
    exact fun c hc => ih c hc (hcheck c hc)

theorem missing?_atNode (sig : Signature) (i : Fin n) :
    (args.atNode s i).missing? sig = args.missing? sig := by
  simp only [RunArguments.missing?, RunArguments.lookup_params_atNode, Option.isNone_map]

omit [Scalar K] in
theorem row_agree (rows : List (Grid [n, t] K)) (k : Nat) :
    Agree (fun g o => ∀ i, o i = g.pick (.alongNode i)) (Values.orFault .position rows[k]?)
      fun i : Fin n => Values.orFault .position (rows.map (Grid.pick (.alongNode i)))[k]? := by
  simp only [List.getElem?_map]
  cases rows[k]? with
  | none =>
    rintro ⟨i⟩
    exact ⟨i, .position, rfl⟩
  | some g => exact ⟨_, fun i => rfl, fun i => rfl⟩

omit [Scalar K] in
theorem rowsAt_agree (rows : List (Grid [n, t] K)) (places : List Nat) :
    Agree (fun picked o => ∀ i, o i = picked.map (Grid.pick (.alongNode i)))
      (rowsAt rows places) fun i : Fin n => rowsAt (rows.map (Grid.pick (.alongNode i))) places := by
  induction places with
  | nil => exact ⟨fun _ => [], fun _ => rfl, fun _ => rfl⟩
  | cons k places ih =>
    simp only [rowsAt, List.mapM_cons] at ih ⊢
    refine agree_bind (row_agree rows k) fun g o hg => ?_
    refine agree_bind ih fun picked o' hpicked => agree_pure fun i => ?_
    rw [hg, hpicked, List.map_cons]

theorem computeAll_agree {w : Wiring K} (hsettings : w.settings = []) {parts : List (Component K)}
    (hparts : ∀ c ∈ parts, ∀ rows : List (Grid [n, t] K),
      Agree (fun out o => ∀ i, o i = out.atNode i) (c.compute args s rows) fun i =>
        c.compute (args.atNode s i) s.withoutClasses (rows.map (Grid.pick (.alongNode i))))
    (places : List (List Nat)) (rows : List (Grid [n, t] K)) :
    Agree (fun table o => ∀ i, o i = (table.1.map (Grid.pick (.alongNode i)), table.2))
      (computeAll args w parts places s rows) fun i : Fin n =>
      computeAll (args.atNode s i) w parts places s.withoutClasses
        (rows.map (Grid.pick (.alongNode i))) := by
  induction parts generalizing places rows with
  | nil =>
    simp only [computeAll]
    exact agree_pure fun i => rfl
  | cons c parts ih =>
    cases places with
    | nil =>
      simp only [computeAll]
      exact agree_pure fun i => rfl
    | cons here places =>
      simp only [computeAll, settingsFor_eq hsettings]
      refine agree_bind (rowsAt_agree rows here) fun given o hgiven => ?_
      obtain rfl := funext hgiven
      refine agree_bind (hparts c List.mem_cons_self given) fun out o hout => ?_
      obtain rfl := funext hout
      have hrest := ih (fun c' hc' => hparts c' (List.mem_cons_of_mem c hc')) places
        (rows ++ out.rows)
      simp only [List.map_append] at hrest
      refine agree_bind hrest fun table o htable => agree_pure fun i => ?_
      rw [htable]
      rfl

/-- A component of formulas computes over all nodes what it computes over every single node. -/
theorem compute_agree (hc : c.OfFormulas) (hsolver : s.solver ≠ .adaptive) (ht : 0 < t)
    (hcheck : check n t args c s = .ok ()) (rows : List (Grid [n, t] K)) :
    Agree (fun out o => ∀ i, o i = out.atNode i) (c.compute args s rows) fun i =>
      c.compute (args.atNode s i) s.withoutClasses (rows.map (Grid.pick (.alongNode i))) := by
  induction hc generalizing rows with
  | @bucket b hlaws =>
    obtain ⟨d, hd⟩ := check_bucket_eq_ok.1 hcheck
    have hsingle (i : Fin n) := RunData.prepare_atNode (Bucket.networks_eq_nil hlaws) hd i
    simp only [compute, prepareFor, signature, hd, hsingle, ok_bind]
    obtain ⟨rfl, hinit⟩ := RunData.prepare_eq_ok hd
    exact b.run_agree hlaws (RunData.supplies_of_prepare hd) hsolver ht hinit rows
  | @model w parts hsettings hparts ih =>
    rw [check, checkAll_iff hsettings] at hcheck
    have hall : checkAll n t args w parts s = .ok () := (checkAll_iff hsettings).2 hcheck
    have hall' (i : Fin n) : checkAll 1 t (args.atNode s i) w parts s.withoutClasses = .ok () :=
      (checkAll_iff hsettings).2 fun c hc => check_atNode (hparts c hc) (hcheck c hc) i
    simp only [compute, missing?_atNode, hall, hall', ok_bind]
    cases args.missing? w.signature with
    | some cause =>
      rintro ⟨i⟩
      exact ⟨i, _, rfl⟩
    | none =>
      refine agree_bind (computeAll_agree hsettings (fun c hc rows => ih c hc (hcheck c hc) rows)
        w.inputPlaces rows) fun table o htable => ?_
      obtain rfl := funext htable
      refine agree_bind (rowsAt_agree table.1 w.outputPlaces) fun out o hout =>
        agree_pure fun i => ?_
      rw [hout]
      rfl

end Component

/-- The slice of an array at a node. -/
def Grid.nodeSlice {α : Type} (g : Grid [m, n, t] α) (i : Fin n) : Grid [m, t] α :=
  g.pick fun k => .cons k.head (.nodeTime i k.tail.head)

theorem Grid.rows_nodeSlice {α : Type} (g : Grid [m, n, t] α) (i : Fin n) :
    (g.nodeSlice i).rows = g.rows.map (pick fun j => .nodeTime i j.head) :=
  rows_pick_below _ g

theorem Grid.get_reshape_add {α : Type} (g : Grid [t] α)
    (h : Shape.size [t] = Shape.size [1, t]) (j : Index [1, t]) :
    (g.reshape h).get j = g.get j.tail := by
  have hrank : j.rank.val = j.tail.rank.val := by
    have hhead : j.head.val = 0 := Nat.lt_one_iff.1 j.head.isLt
    show j.head.val * Shape.size [t] + j.tail.rank.val = j.tail.rank.val
    rw [hhead, Nat.zero_mul, Nat.zero_add]
  simp only [Grid.get, Grid.reshape, Fin.getElem_fin, Vector.getElem_cast, hrank]

theorem Grid.get_reshape_drop {α : Type} (g : Grid [1, t] α)
    (h : Shape.size [1, t] = Shape.size [t]) (j : Index [t]) :
    (g.reshape h).get j = g.get (.cons 0 j) := by
  have hrank : (Index.cons (0 : Fin 1) j).rank.val = j.rank.val := by
    show 0 * Shape.size [t] + j.rank.val = j.rank.val
    rw [Nat.zero_mul, Nat.zero_add]
  simp only [Grid.get, Grid.reshape, Fin.getElem_fin, Vector.getElem_cast, hrank]

theorem Tensor.ofGrid_stack {α : Type} {u : Shape} {gs : List (Grid u α)} {g : Grid (m :: u) α}
    (h : g.rows = gs) : Tensor.ofGrid (Grid.stack gs) = .ofGrid g := by
  obtain rfl : gs.length = m := by rw [← h, Grid.length_rows]
  obtain rfl : Grid.stack gs = g := Grid.rows_injective (by rw [Grid.rows_stack, h])
  rfl

omit [Scalar K] in
theorem InputRows.ofTensor?_nodeSlice (x : Grid [m, n, t] K) (i : Fin n) :
    InputRows.ofTensor? (.ofGrid (x.nodeSlice i)) =
      some ⟨1, t, x.rows.map (Grid.pick (.alongNode i)), true⟩ := by
  have hreshape : ((x.nodeSlice i).rows.map fun row => row.reshape (u := [1, t]) (by simp)) =
      x.rows.map (Grid.pick (.alongNode i)) := by
    rw [Grid.rows_nodeSlice, List.map_map]
    refine List.map_congr_left fun row hrow => Grid.ext_get fun j => ?_
    simp only [Function.comp_apply, Grid.get_reshape_add, Grid.get_pick]
    rfl
  rw [← hreshape]
  rfl

omit [Scalar K] in
theorem Outcome.toTensor_atNode (out : Outcome n t K) (i : Fin n) :
    (out.atNode i).toTensor true = .ofGrid ((Grid.stack out.rows).nodeSlice i) := by
  rw [toTensor, dif_pos ⟨rfl, rfl⟩]
  refine Tensor.ofGrid_stack ?_
  rw [Grid.rows_nodeSlice, Grid.rows_stack, atNode, List.map_map]
  refine List.map_congr_left fun row hrow => Grid.ext_get fun j => ?_
  simp only [Function.comp_apply, Grid.get_reshape_drop, Grid.get_pick]
  rfl

namespace Component

variable {c : Component K} {args : RunArguments K} {s : Settings K}

/-- A run with a fixed-step solver over several nodes returns at every node what a single instance
returns for the slice of the inputs there, with the values that the node is given. A run that is
accepted fails only if one of these does. -/
theorem run_nodeSlice (hc : c.OfFormulas) (hsolver : s.solver ≠ .adaptive) (ht : 0 < t)
    {input : Nested K} {x : Grid [m, n, t] K} (hinput : input.toTensor = .ok (.ofGrid x)) :
    (∀ result, c.run input args s = .ok result →
      ∃ (r : Nat) (y : Grid [r, n, t] K), result.rows = .ofGrid y ∧
        ∀ i, c.run (.tensor (.ofGrid (x.nodeSlice i))) (args.atNode s i) s.withoutClasses =
          .ok ⟨.ofGrid (y.nodeSlice i), result.warnings⟩) ∧
    (0 < n → check n t args c s = .ok () →
      (∀ i, ∃ single, c.run (.tensor (.ofGrid (x.nodeSlice i))) (args.atNode s i)
        s.withoutClasses = .ok single) →
      ∃ result, c.run input args s = .ok result) := by
  have hreads : InputRows.Reads ⟨n, t, x.rows, false⟩ input := ⟨_, hinput, rfl⟩
  have hreads' (i : Fin n) : InputRows.Reads ⟨1, t, x.rows.map (Grid.pick (.alongNode i)), true⟩
      (.tensor (.ofGrid (x.nodeSlice i))) := ⟨_, rfl, InputRows.ofTensor?_nodeSlice x i⟩
  constructor
  · intro result hrun
    obtain ⟨hcount, out, hout, rfl⟩ := (run_eq_ok_of_reads hreads).1 hrun
    have hagree := compute_agree hc hsolver ht (check_of_compute hout) x.rows
    rw [hout] at hagree
    obtain ⟨o, ho, hsingle⟩ := hagree
    have hrows : out.toTensor false = .ofGrid (Grid.stack out.rows) := dif_neg (by simp)
    refine ⟨_, Grid.stack out.rows, hrows, fun i => ?_⟩
    refine (run_eq_ok_of_reads (hreads' i)).2 ⟨by simpa using hcount, o i, hsingle i, ?_⟩
    rw [ho, ← Outcome.toTensor_atNode]
    rfl
  · intro hn hcheck hsingle
    choose single hsingle using hsingle
    have hrun (i : Fin n) := (run_eq_ok_of_reads (hreads' i)).1 (hsingle i)
    have hcount := (hrun ⟨0, hn⟩).1
    choose o ho hresult using fun i => (hrun i).2
    obtain ⟨out, hout, -⟩ := (compute_agree hc hsolver ht hcheck x.rows).eq_ok ⟨⟨0, hn⟩⟩ ho
    exact ⟨_, (run_eq_ok_of_reads hreads).2 ⟨by simpa using hcount, out, hout, rfl⟩⟩

def classRates : RunArguments Float where
  params := [("k", .list [.entry (.real (Scalar.ratio 1 2)), .entry (.real (Scalar.ratio 1 4))])]
  states := [("s", .entry (.real Scalar.one))]

def swappedClasses : Settings Float :=
  { Settings.standard with paramIndex := some (.list [.entry (.integer 1), .entry (.integer 0)]) }

def steadyRain : Grid [1, 2, 2] Float := Grid.replicate Scalar.one

theorem linearStore_nodes :
    ∃ (r : Nat) (y : Grid [r, 2, 2] Float),
      (bucket Bucket.linearStore).run (.tensor (.ofGrid steadyRain)) classRates swappedClasses =
        .ok ⟨.ofGrid y, []⟩ ∧
      y.toList = [Scalar.one, Scalar.ratio 7 4, Scalar.one, Scalar.ratio 3 2,
        Scalar.ratio 1 4, Scalar.ratio 7 16, Scalar.ratio 1 2, Scalar.ratio 3 4] ∧
      ∀ i, (bucket Bucket.linearStore).run (.tensor (.ofGrid (steadyRain.nodeSlice i)))
        (classRates.atNode swappedClasses i) swappedClasses.withoutClasses =
          .ok ⟨.ofGrid (y.nodeSlice i), []⟩ := by
  obtain ⟨⟨rows, warnings⟩, hrun, hwarnings, hvalues⟩ :
      ∃ result, (bucket Bucket.linearStore).run (.tensor (.ofGrid steadyRain)) classRates swappedClasses =
        .ok result ∧ result.warnings = [] ∧ result.rows.toList =
          [Scalar.one, Scalar.ratio 7 4, Scalar.one, Scalar.ratio 3 2,
            Scalar.ratio 1 4, Scalar.ratio 7 16, Scalar.ratio 1 2, Scalar.ratio 3 4] :=
    exists_ok_of_check (by decide +kernel)
  obtain rfl : warnings = [] := hwarnings
  obtain ⟨r, y, hrows, hnodes⟩ :=
    (run_nodeSlice (.bucket (by decide)) (by decide) (by decide) rfl).1 _ hrun
  obtain rfl : rows = .ofGrid y := hrows
  exact ⟨r, y, hrun, hvalues, hnodes⟩

end Component

end Catchment
