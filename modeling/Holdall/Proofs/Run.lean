import Mathlib.Algebra.BigOperators.Group.List.Basic
import Mathlib.Data.List.DropRight
import Mathlib.Data.List.Forall2

namespace Holdall.Run

variable {S T R A O K : Type*}

/-- The answers to requests made in turn, each with the state that it leaves. -/
def steps (respond : S → R → A × S) (s : S) : List R → List (A × S)
  | [] => []
  | r :: rs => respond s r :: steps respond (respond s r).2 rs

/-- The state that requests made in turn leave. -/
def after (respond : S → R → A × S) (s : S) (rs : List R) : S :=
  rs.foldl (fun s r ↦ (respond s r).2) s

theorem after_induction {respond : S → R → A × S} {P : S → Prop}
    (hstep : ∀ s r, P s → P (respond s r).2) {s : S} (hs : P s) (rs : List R) :
    P (after respond s rs) := by
  induction rs generalizing s with
  | nil => exact hs
  | cons r rs ih => exact ih (hstep s r hs)

theorem after_append (respond : S → R → A × S) (s : S) (rs rs' : List R) :
    after respond s (rs ++ rs') = after respond (after respond s rs) rs' := List.foldl_append

/-- What is known is what came up since everything was last forgotten. -/
theorem knows_after_iff {respond : S → R → A × S} {P : S → K → Prop} {keeps : R → Bool}
    {key? : R → Option K}
    (hlearn : ∀ s r k, keeps r = true → (P (respond s r).2 k ↔ P s k ∨ key? r = some k))
    (hforget : ∀ s r k, keeps r = false → ¬ P (respond s r).2 k)
    {s : S} (hs : ∀ k, ¬ P s k) (rs : List R) (k : K) :
    P (after respond s rs) k ↔ k ∈ (rs.rtakeWhile keeps).filterMap key? := by
  induction rs using List.reverseRecOn with
  | nil => exact iff_of_false (hs k) (by simp)
  | append_singleton rs r ih =>
    rw [after_append]
    change P (respond (after respond s rs) r).2 k ↔ _
    cases hr : keeps r with
    | true =>
      have hlast : k ∈ [r].filterMap key? ↔ key? r = some k := by simp
      rw [List.rtakeWhile_concat_pos _ _ _ hr, List.filterMap_append, List.mem_append, ← ih, hlast]
      exact hlearn _ r k hr
    | false =>
      rw [List.rtakeWhile_concat_neg _ _ _ (by simp [hr])]
      exact iff_of_false (hforget _ r k hr) (by simp)

theorem after_simulate {f : S → R → A × S} {g : T → R → A × T} {P : S → T → Prop} {rs : List R}
    (hstep : ∀ s t, ∀ r ∈ rs, P s t → P (f s r).2 (g t r).2) {s : S} {t : T} (hst : P s t) :
    P (after f s rs) (after g t rs) := by
  induction rs generalizing s t with
  | nil => exact hst
  | cons r rs ih =>
    have hr := hstep s t r List.mem_cons_self hst
    exact ih (fun s t r' hr' ↦ hstep s t r' (List.mem_cons_of_mem r hr')) hr

theorem steps_simulate {f : S → R → A × S} {g : T → R → A × T} {P : S → T → Prop}
    (hstep : ∀ s t r, P s t → (f s r).1 = (g t r).1 ∧ P (f s r).2 (g t r).2)
    {s : S} {t : T} (hst : P s t) (rs : List R) :
    List.Forall₂ (fun x y ↦ x.1 = y.1 ∧ P x.2 y.2) (steps f s rs) (steps g t rs) := by
  induction rs generalizing s t with
  | nil => exact .nil
  | cons r rs ih =>
    have hr := hstep s t r hst
    exact .cons hr (ih hr.2)

/-- The answers to requests made in turn, each with what is seen of the state that it leaves. -/
def watch (respond : S → R → A × S) (look : S → O) (s : S) (rs : List R) : List (A × O) :=
  (steps respond s rs).map (Prod.map id look)

theorem watch_eq {f : S → R → A × S} {g : T → R → A × T} {P : S → T → Prop} {look : S → O}
    {look' : T → O} (hstep : ∀ s t r, P s t → (f s r).1 = (g t r).1 ∧ P (f s r).2 (g t r).2)
    (hlook : ∀ s t, P s t → look s = look' t) {s : S} {t : T} (hst : P s t) (rs : List R) :
    watch f look s rs = watch g look' t rs := by
  induction rs generalizing s t with
  | nil => rfl
  | cons r rs ih =>
    obtain ⟨hanswer, hnext⟩ := hstep s t r hst
    exact congrArg₂ List.cons (Prod.ext hanswer (hlook _ _ hnext)) (ih hnext)

structure Call (S R A : Type*) where
  met : S
  request : R
  answer : A

def call (respond : S → R → A × S) (s : S) (r : R) : Call S R A := ⟨s, r, (respond s r).1⟩

def calls (respond : S → R → A × S) (s : S) : List R → List (Call S R A)
  | [] => []
  | r :: rs => call respond s r :: calls respond (respond s r).2 rs

theorem calls_append (respond : S → R → A × S) (s : S) (rs rs' : List R) :
    calls respond s (rs ++ rs') = calls respond s rs ++ calls respond (after respond s rs) rs' := by
  induction rs generalizing s with
  | nil => rfl
  | cons r rs ih => exact congrArg (call respond s r :: ·) (ih (respond s r).2)

theorem requests_calls (respond : S → R → A × S) (s : S) (rs : List R) :
    (calls respond s rs).map Call.request = rs := by
  induction rs generalizing s with
  | nil => rfl
  | cons r rs ih => exact congrArg (r :: ·) (ih (respond s r).2)

theorem forall_calls {respond : S → R → A × S} {P : S → Prop} {Q : Call S R A → Prop} {rs : List R}
    (hstep : ∀ s, ∀ r ∈ rs, P s → P (respond s r).2 ∧ Q (call respond s r)) {s : S} (hs : P s) :
    ∀ c ∈ calls respond s rs, Q c := by
  induction rs generalizing s with
  | nil => simp [calls]
  | cons r rs ih =>
    obtain ⟨hnext, hr⟩ := hstep s r List.mem_cons_self hs
    rw [calls, List.forall_mem_cons]
    exact ⟨hr, ih (fun s r' hr' ↦ hstep s r' (List.mem_cons_of_mem r hr')) hnext⟩

/-- Where each call balances, so does the run. -/
theorem sum_calls {M : Type*} [AddCommMonoid M] {respond : S → R → A × S} {P : S → Prop}
    (held : S → M) (gain loss : Call S R A → M) {rs : List R}
    (hstep : ∀ s, ∀ r ∈ rs, P s → P (respond s r).2 ∧
      held s + gain (call respond s r) = held (respond s r).2 + loss (call respond s r))
    {s : S} (hs : P s) :
    held s + ((calls respond s rs).map gain).sum =
      held (after respond s rs) + ((calls respond s rs).map loss).sum := by
  induction rs generalizing s with
  | nil => rfl
  | cons r rs ih =>
    obtain ⟨hnext, hr⟩ := hstep s r List.mem_cons_self hs
    have hrest := ih (fun s r' hr' ↦ hstep s r' (List.mem_cons_of_mem r hr')) hnext
    simp only [calls, List.map_cons, List.sum_cons]
    calc
      _ = (held s + gain (call respond s r)) +
          ((calls respond (respond s r).2 rs).map gain).sum := (add_assoc _ _ _).symm
      _ = (held (respond s r).2 + ((calls respond (respond s r).2 rs).map gain).sum) +
          loss (call respond s r) := by rw [hr, add_right_comm]
      _ = _ := by rw [hrest, add_assoc, add_comm (List.sum _)]; rfl

end Holdall.Run
