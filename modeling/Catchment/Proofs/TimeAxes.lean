import Catchment.Proofs.AlikeSettings
import Catchment.Proofs.BucketRuns
import Catchment.Proofs.WholeDoubles

/-!
# Time axes

A fixed step asks for the inputs at its own time, and over finite times that increase these are the
inputs of its own column, under either interpolation. So every component returns the same over all
such axes, counted or given, and ends in the same fault if it ends in one.
-/
namespace Catchment

variable {K : Type} [Scalar K] {n t : Nat}

/-- States march in the same way along two axes of one length, if the rates agree at the times of
the same places. The last time has no rate. -/
theorem marchExplicit_retime {u : Shape} {minValue : Option K} {rate rate' : Rate u K}
    {times times' : List K} (hlen : times'.length = times.length)
    (hrate : ∀ j time time', j + 1 < times.length → times[j]? = some time →
      times'[j]? = some time' → ∀ v, rate' v time' = rate v time) (x : Grid u K) :
    marchExplicit minValue rate' x times' = marchExplicit minValue rate x times := by
  induction times generalizing times' x with
  | nil =>
    rw [List.length_eq_zero_iff.1 hlen]
    rfl
  | cons time rest ih =>
    obtain ⟨time', rest', rfl⟩ := List.exists_cons_of_length_eq_add_one hlen
    have hlen' : rest'.length = rest.length := Nat.succ.inj hlen
    cases rest with
    | nil =>
      rw [List.length_eq_zero_iff.1 hlen']
      rfl
    | cons next rest =>
      obtain ⟨next', rest', rfl⟩ := List.exists_cons_of_length_eq_add_one hlen'
      have hfirst := hrate 0 time time' (by simp) rfl rfl x
      rw [marchExplicit, marchExplicit, advanceOnce, advanceOnce, checkedRate, checkedRate, hfirst]
      refine bind_congr fun v => ?_
      rw [ih hlen' fun j time time' hj htime htime' => hrate (j + 1) time time'
        (Nat.succ_lt_succ hj) htime htime']

variable [OrderedScalar K]

/-- Fixed steps lead along the same paths over all finite times that increase. -/
theorem Settings.samePaths_of_strict {s s' : Settings K} {times times' : List K}
    (hsolver : s.solver ≠ .adaptive) (hsolver' : s'.solver ≠ .adaptive)
    (hmin : s'.minValue = s.minValue) (hlen : times'.length = times.length)
    (hstrict : StrictTimes times) (hstrict' : StrictTimes times') :
    s.SamePaths times s' times' := by
  intro r u columns rate x hcolumns
  rcases Nat.eq_zero_or_pos times.length with hzero | hpos
  · rw [List.length_eq_zero_iff.1 hzero, List.length_eq_zero_iff.1 (hlen.trans hzero),
      List.length_eq_zero_iff.1 (hcolumns.trans hzero)]
    rfl
  · obtain ⟨f, hf, -⟩ := Forcing.make_eq_ok hstrict hcolumns hpos
    obtain ⟨f', hf', -⟩ := Forcing.make_eq_ok hstrict' (hcolumns.trans hlen.symm) (hlen ▸ hpos)
    rw [forcedPath, forcedPath, hf, hf', ok_bind, ok_bind, advance_eq_marchExplicit hsolver,
      advance_eq_marchExplicit hsolver', hmin]
    congr 1
    refine marchExplicit_retime hlen (fun j time time' hj htime htime' v => ?_) x
    rw [Forcing.value_of_make hf hstrict s.interpolation htime hj (by omega),
      Forcing.value_of_make hf' hstrict' s'.interpolation htime' (by omega) (by omega)]

/-- The same data at other finite times that increase, under any interpolation and with any
fixed-step solver. -/
structure RunData.Retimes (d d' : RunData n t K) : Prop where
  params : d'.params = d.params
  weights : d'.weights = d.weights
  initial : d'.initial = d.initial
  minValue : d'.settings.minValue = d.settings.minValue
  backend : d'.settings.backend = d.settings.backend
  solver : d.settings.solver ≠ .adaptive
  solver' : d'.settings.solver ≠ .adaptive
  strict : StrictTimes d.times
  strict' : StrictTimes d'.times

theorem RunData.Retimes.alike {d d' : RunData n t K} (h : d.Retimes d') : d.Alike d' where
  params := h.params
  weights := h.weights
  initial := h.initial
  backend := h.backend
  adaptive := iff_of_false h.solver' h.solver
  paths := Settings.samePaths_of_strict h.solver h.solver' h.minValue
    (d'.times_length.trans d.times_length.symm) h.strict h.strict'

omit [OrderedScalar K] in
/-- The times of the columns, counted or given, are finite and increase. -/
def Settings.Increasing (s : Settings K) (t : Nat) : Prop :=
  ∃ times, s.timesFor t = .ok times ∧ StrictTimes times.val

/-- As many columns as a double can count are at times that increase. -/
theorem Settings.increasing_of_counted {s : Settings Float} (hs : s.times = none)
    (ht : t ≤ 2 ^ 53) : s.Increasing t := by
  unfold Increasing timesFor
  rw [hs]
  exact ⟨_, rfl, Double.strictTimes_counted ht⟩

/-- The settings of a fixed-step run with another interpolation and at other times. -/
structure Settings.Retimes (t : Nat) (s s' : Settings K) : Prop where
  rest : s' = { s with interpolation := s'.interpolation, times := s'.times }
  solver : s.solver ≠ .adaptive
  increasing : s.Increasing t
  increasing' : s'.Increasing t

theorem Settings.Retimes.alike {s s' : Settings K} (h : s.Retimes t s') : s.Alike t s' := by
  obtain ⟨hrest, hsolver, ⟨times, htimes, hstrict⟩, times', htimes', hstrict'⟩ := h
  have hsolver' : s'.solver = s.solver := by rw [hrest]
  refine ⟨by rw [hrest], by rw [hrest], by rw [hrest], by rw [hsolver'], fun f => ?_, ?_⟩
  · rw [htimes, htimes']
    exact iff_of_false nofun nofun
  · intro found found' hfound hfound'
    obtain rfl := Except.ok.inj (htimes.symm.trans hfound)
    obtain rfl := Except.ok.inj (htimes'.symm.trans hfound')
    exact samePaths_of_strict hsolver (hsolver' ▸ hsolver) (by rw [hrest])
      (times'.property.trans times.property.symm) hstrict hstrict'

namespace Component

/-- Neither the interpolation nor the times of a fixed-step run change what a component returns, as
long as the times are finite and increase. Nor do those of the parts of a model that have settings
of their own. -/
theorem axis_irrelevant {input : Nested K} {given : InputRows K} (hreads : given.Reads input)
    {s s' : Settings K} (h : s.Retimes given.times s') {f : Settings K → Settings K}
    (hf : ∀ own, f own = own ∨ own.Retimes given.times (f own)) (c : Component K)
    (args : RunArguments K) : (c.mapSettings f).run input args s' = c.run input args s := by
  refine run_mapSettings (fun given' hgiven' => ?_) c args
  obtain rfl := hreads.unique hgiven'
  refine ⟨h.alike, fun own => ?_⟩
  rcases hf own with hsame | hother
  · rw [hsame]
    exact .refl _ own
  · exact hother.alike

/-- The store fills in the same way from hour to hour and over uneven times between which its inflow
is interpolated. -/
theorem linearStore_axes :
    let entry (x : Float) : Nested Float := .entry (.real x)
    let input := Nested.list [.list [entry 1, entry 2, entry 3]]
    let args : RunArguments Float := ⟨[("k", entry (Scalar.ratio 1 2))], [("s", entry 1)]⟩
    let uneven : Settings Float := { Settings.standard with
      interpolation := .linear
      times := some (.list [entry 0, entry (Scalar.ratio 5 2), entry 7]) }
    ∃ result, (bucket .linearStore).run input args .standard = .ok result ∧
      (bucket .linearStore).run input args uneven = .ok result ∧
      result.rows.toList = [1, Scalar.ratio 3 2, Scalar.ratio 11 4, Scalar.ratio 1 2,
        Scalar.ratio 3 4, Scalar.ratio 11 8] := by
  intro entry input args uneven
  have hreads : InputRows.Reads ⟨1, 3, [⟨#v[1, 2, 3]⟩], true⟩ input := ⟨_, rfl, rfl⟩
  have hretimes : Settings.Retimes 3 .standard uneven :=
    ⟨rfl, by decide, Settings.increasing_of_counted rfl (by decide), _, rfl, by decide +kernel,
      by decide +kernel⟩
  have hsame := axis_irrelevant hreads hretimes (f := id) (fun own => .inl rfl)
    (bucket .linearStore) args
  obtain ⟨result, hresult, hlist⟩ : ∃ result,
      (bucket .linearStore).run input args .standard = .ok result ∧
        result.rows.toList = [1, Scalar.ratio 3 2, Scalar.ratio 11 4, Scalar.ratio 1 2,
          Scalar.ratio 3 4, Scalar.ratio 11 8] := exists_ok_of_check (by decide +kernel)
  exact ⟨result, hresult, hsame.trans hresult, hlist⟩

end Component

end Catchment
