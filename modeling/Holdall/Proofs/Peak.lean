import Holdall.Proofs.Run
import Mathlib.Data.List.Induction
import Mathlib.Order.Bounds.Basic

namespace Holdall.Run

variable {S R A : Type*} {respond : S → R → A × S} {measure : S → ℕ} {keeps : R → Prop} {s : S}
  {rs : List R} {r : R}

/-- What is measured from the start of a run to its end, or from the last request that does not keep
what came before it. -/
def reached (respond : S → R → A × S) (measure : S → ℕ) (keeps : R → Prop) (s : S) (rs : List R) :
    Set ℕ :=
  {n | ∃ ps qs, rs = ps ++ qs ∧ (∀ q ∈ qs, keeps q) ∧ measure (after respond s ps) = n}

theorem reached_nil : reached respond measure keeps s [] = {measure s} := by
  ext n
  constructor
  · rintro ⟨ps, qs, hsplit, -, rfl⟩
    obtain ⟨rfl, -⟩ := List.nil_eq_append_iff.1 hsplit
    rfl
  · rintro rfl
    exact ⟨[], [], rfl, nofun, rfl⟩

theorem measure_after_mem_reached (rs : List R) :
    measure (after respond s rs) ∈ reached respond measure keeps s rs :=
  ⟨rs, [], (List.append_nil rs).symm, nofun, rfl⟩

theorem mem_reached_concat {n : ℕ} : n ∈ reached respond measure keeps s (rs ++ [r]) ↔
    n = measure (after respond s (rs ++ [r])) ∨ keeps r ∧ n ∈ reached respond measure keeps s rs := by
  constructor
  · rintro ⟨ps, qs, hsplit, hqs, rfl⟩
    rcases qs.eq_nil_or_concat' with rfl | ⟨qs, q, rfl⟩
    · rw [hsplit, List.append_nil]
      exact .inl rfl
    · rw [← List.append_assoc] at hsplit
      obtain ⟨hrs, hrq⟩ := List.append_inj' hsplit rfl
      rw [List.singleton_inj.1 hrq]
      exact .inr ⟨hqs q (by simp), ps, qs, hrs, fun q' hq' ↦ hqs q' (List.mem_append_left _ hq'), rfl⟩
  · rintro (rfl | ⟨hr, ps, qs, rfl, hqs, rfl⟩)
    · exact measure_after_mem_reached _
    · refine ⟨ps, qs ++ [r], List.append_assoc ps qs [r], ?_, rfl⟩
      intro q hq
      rcases List.mem_append.1 hq with hq | hq
      · exact hqs q hq
      · rwa [List.mem_singleton.1 hq]

theorem reached_concat (hr : keeps r) : reached respond measure keeps s (rs ++ [r]) =
    insert (measure (after respond s (rs ++ [r]))) (reached respond measure keeps s rs) := by
  ext n
  rw [mem_reached_concat, Set.mem_insert_iff, and_iff_right hr]

theorem reached_concat_of_not (hr : ¬ keeps r) : reached respond measure keeps s (rs ++ [r]) =
    {measure (after respond s (rs ++ [r]))} := by
  ext n
  rw [mem_reached_concat, Set.mem_singleton_iff, or_iff_left (hr ·.1)]

theorem exists_isGreatest_reached (respond : S → R → A × S) (measure : S → ℕ) (keeps : R → Prop)
    (s : S) (rs : List R) :
    ∃ n, IsGreatest (reached respond measure keeps s rs) n := by
  induction rs using List.reverseRecOn with
  | nil =>
    rw [reached_nil]
    exact ⟨_, isGreatest_singleton⟩
  | append_singleton rs r ih =>
    obtain ⟨n, hn⟩ := ih
    by_cases hr : keeps r
    · rw [reached_concat hr]
      exact ⟨_, hn.insert _⟩
    · rw [reached_concat_of_not hr]
      exact ⟨_, isGreatest_singleton⟩

theorem isGreatest_reached (top : S → ℕ) {P : S → Prop} (hstep : ∀ s r, P s → P (respond s r).2)
    (hkeep : ∀ s r, P s → keeps r →
      top (respond s r).2 = max (measure (respond s r).2) (top s))
    (hreset : ∀ s r, ¬ keeps r → top (respond s r).2 = measure (respond s r).2)
    (hs : P s) (htop : top s = measure s) (rs : List R) :
    IsGreatest (reached respond measure keeps s rs) (top (after respond s rs)) := by
  induction rs using List.reverseRecOn with
  | nil =>
    rw [reached_nil, ← htop]
    exact isGreatest_singleton
  | append_singleton rs r ih =>
    have hlast : after respond s (rs ++ [r]) = (respond (after respond s rs) r).2 :=
      after_append respond s rs [r]
    by_cases hr : keeps r
    · rw [reached_concat hr, hlast, hkeep _ r (after_induction hstep hs rs) hr]
      exact ih.insert _
    · rw [reached_concat_of_not hr, hlast, hreset _ r hr]
      exact isGreatest_singleton

end Holdall.Run
