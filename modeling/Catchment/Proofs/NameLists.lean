import Catchment.Flux
import Mathlib

/-!
# Lists of names

Names in order of first occurrence are the names of the list, each once.
-/
namespace Catchment

theorem foldl_firstOccurrences (seen names : List String) (hs : seen.Nodup) :
    (names.foldl (fun seen n => if seen.contains n then seen else seen ++ [n]) seen).Nodup ∧
      ∀ v, v ∈ names.foldl (fun seen n => if seen.contains n then seen else seen ++ [n]) seen ↔
        v ∈ seen ∨ v ∈ names := by
  induction names generalizing seen with
  | nil => simpa using hs
  | cons n names ih =>
    rw [List.foldl_cons]
    by_cases hn : n ∈ seen
    · obtain ⟨hnodup, hmem⟩ := ih seen hs
      rw [if_pos (List.contains_iff_mem.2 hn)]
      refine ⟨hnodup, fun v => (hmem v).trans ?_⟩
      rw [List.mem_cons]
      constructor
      · rintro (h | h)
        · exact .inl h
        · exact .inr (.inr h)
      · rintro (h | rfl | h)
        · exact .inl h
        · exact .inl hn
        · exact .inr h
    · have hs' : (seen ++ [n]).Nodup := by
        rw [← List.concat_eq_append]
        exact hs.concat hn
      obtain ⟨hnodup, hmem⟩ := ih (seen ++ [n]) hs'
      rw [if_neg fun h => hn (List.contains_iff_mem.1 h)]
      refine ⟨hnodup, fun v => (hmem v).trans ?_⟩
      rw [List.mem_append, List.mem_singleton, List.mem_cons, or_assoc]

theorem nodup_firstOccurrences (names : List String) : (firstOccurrences names).Nodup :=
  (foldl_firstOccurrences [] names List.nodup_nil).1

@[simp] theorem mem_firstOccurrences {names : List String} {v : String} :
    v ∈ firstOccurrences names ↔ v ∈ names :=
  ((foldl_firstOccurrences [] names List.nodup_nil).2 v).trans (by simp)

theorem nodup_orderedUnion (groups : List (List String)) : (orderedUnion groups).Nodup :=
  nodup_firstOccurrences _

@[simp] theorem mem_orderedUnion {groups : List (List String)} {v : String} :
    v ∈ orderedUnion groups ↔ ∃ g ∈ groups, v ∈ g := by
  simp [orderedUnion]

@[simp] theorem sortedNames_eq_nil {names : List String} : sortedNames names = [] ↔ names = [] := by
  rw [sortedNames, ← List.length_eq_zero_iff, List.length_mergeSort, List.length_eq_zero_iff,
    List.eq_nil_iff_forall_not_mem, List.eq_nil_iff_forall_not_mem]
  simp only [mem_firstOccurrences]

/-- Names of a list that stand in another one are reported exactly if there are any. -/
theorem sortedNames_common_eq_nil {xs ys : List String} :
    sortedNames (xs.filter ys.contains) = [] ↔ ∀ v ∈ xs, v ∉ ys := by
  rw [sortedNames_eq_nil, List.filter_eq_nil_iff]
  simp only [List.contains_iff_mem]

@[simp] theorem mem_sortedNames {names : List String} {v : String} :
    v ∈ sortedNames names ↔ v ∈ names := by
  rw [sortedNames, List.mem_mergeSort, mem_firstOccurrences]

/-- Distinct things that are sorted ascend strictly. -/
theorem pairwise_lt_mergeSort {α : Type} [LinearOrder α] {xs : List α} (h : xs.Nodup) :
    (xs.mergeSort fun a b => decide (a ≤ b)).Pairwise (· < ·) :=
  (List.pairwise_mergeSort' (· ≤ ·) xs).imp₂ (fun _ _ => lt_of_le_of_ne) (List.nodup_mergeSort.2 h)

theorem pairwise_sortedNames (names : List String) : (sortedNames names).Pairwise (· < ·) :=
  pairwise_lt_mergeSort (nodup_firstOccurrences names)

namespace Expr

variable {K : Type}

@[simp] theorem mem_varNames {e : Expr K} {v : String} : v ∈ e.varNames ↔ v ∈ e.reads :=
  mem_firstOccurrences

@[simp] theorem mem_parNames {e : Expr K} {k : String} : k ∈ e.parNames ↔ k ∈ e.readsParams :=
  mem_firstOccurrences

end Expr

end Catchment
