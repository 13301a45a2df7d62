import Holdall.Proofs.Sequence.Stability
import Holdall.Proofs.Sequence.Table

namespace Holdall.Sequence

open Association

variable {K V : Type} [Ord K] [Ord V]

theorem pairwise_sortedByKey_snd [Std.TransOrd V] (m : SortedMap K V) :
    (sortedByKey Prod.snd m.entries).Pairwise fun e e' ↦
      compareLex (compareOn Prod.snd) (compareOn Prod.fst) e e' = .lt := by
  have hsorted := stablySorted_sortedBy (compareOn Prod.snd) m.entries
  have hties := hsorted.pairwise_of_eq (List.pairwise_map.1 m.ascending)
  apply (hsorted.ascending.and hties).imp
  intro e e' h
  obtain ⟨hle, htie⟩ := h
  rw [compareLex]
  cases hvalue : compareOn Prod.snd e e' with
  | lt => rfl
  | eq => exact htie hvalue
  | gt => simp [hvalue] at hle

variable [BEq K] [EquivBEq K] [Hashable K] [LawfulHashable K] [Std.LawfulBEqOrd K]

theorem shows_sortByValue (m : SortedMap K V) :
    (sortByValue m).Shows .insertion (sortedByKey Prod.snd m.entries) := by
  have hdistinct : Distinct (sortedByKey Prod.snd m.entries) :=
    m.distinct_entries.perm (perm_sortedBy _ _).symm
  have hshows := OrderedMap.shows_ofList (sortedByKey Prod.snd m.entries)
  rwa [nil_overlay hdistinct] at hshows

/-- The map that is made has the entries of the sorted map and no others, in strictly ascending order of
their values and then of their keys. Those of one value stand as they do in the sorted map. -/
theorem sortByValue_lexicographic [Std.TransOrd V] (m : SortedMap K V) :
    let sorted := sortByValue m
    sorted.toList.Perm m.entries ∧ sorted.size = m.size ∧ (∀ k, sorted.peek? k = m.get? k) ∧
    sorted.toList = sortedByKey Prod.snd m.entries ∧
    (sorted.toList.Pairwise fun e e' ↦
      compareLex (compareOn Prod.snd) (compareOn Prod.fst) e e' = .lt) ∧
    ∀ e, sorted.toList.filter (compareOn Prod.snd e · == .eq) =
      m.entries.filter (compareOn Prod.snd e · == .eq) := by
  intro sorted
  have hshows : sorted.Shows .insertion (sortedByKey Prod.snd m.entries) := shows_sortByValue m
  have hperm : (sortedByKey Prod.snd m.entries).Perm m.entries := perm_sortedBy _ _
  rw [hshows.toList]
  refine ⟨hperm, ?_, ?_, rfl, pairwise_sortedByKey_snd m, ?_⟩
  · rw [hshows.size, hperm.length_eq]
    rfl
  · intro k
    rw [hshows.peek?, SortedMap.get?_eq]
    exact hshows.distinct.value?_eq_of_perm hperm k
  · exact filter_sortedBy (compareOn Prod.snd) m.entries

theorem sortByValue_lexicographic_folded :
    LawfulHashable Item ∧ Std.LawfulBEqOrd Item ∧ Std.TransOrd Item ∧
    let m : SortedMap Item Item := .ofList [(.folded "b", .folded "x"), (.int 1, .text "y"),
      (.folded "A", .int 7), (.int 3, .folded "X")]
    let sorted := sortByValue m
    sorted.toList = [(.folded "A", .int 7), (.int 1, .text "y"), (.int 3, .folded "X"),
      (.folded "b", .folded "x")] ∧
    sorted.size = 4 ∧ sorted.peek? (.folded "B") = some (.folded "x") ∧
    (sorted.toList.Pairwise fun e e' ↦
      compareLex (compareOn Prod.snd) (compareOn Prod.fst) e e' = .lt) ∧
    sorted.toList.filter (compareOn Prod.snd (.int 1, .folded "X") · == .eq) =
      [(.int 3, .folded "X"), (.folded "b", .folded "x")] := by
  refine ⟨inferInstance, inferInstance, inferInstance, ?_⟩
  intro m sorted
  obtain ⟨-, hsize, hpeek, hlist, hlex, hrow⟩ := sortByValue_lexicographic m
  refine ⟨hlist.trans (stablySorted_iff.1 (.of_rows ?_ ?_)).symm, hsize, hpeek _, hlex, hrow _⟩
  · decide
  · have hentries : m.entries = [(.int 1, .text "y"), (.int 3, .folded "X"), (.folded "A", .int 7),
        (.folded "b", .folded "x")] := rfl
    simp only [hentries, List.cons_append, List.nil_append, List.forall_mem_cons]
    exact ⟨rfl, rfl, rfl, rfl, rfl, rfl, rfl, rfl, nofun⟩

end Holdall.Sequence
