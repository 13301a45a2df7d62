import Holdall.Proofs.Locale.Registry
import Mathlib.Data.String.Basic

namespace Holdall

variable {α : Type}

/-- A strictly ascending list of the items that satisfy a condition. -/
structure Enumerates (lt : α → α → Prop) (xs : List α) (p : α → Prop) : Prop where
  ascending : xs.Pairwise lt
  mem_iff x : x ∈ xs ↔ p x

theorem Enumerates.eq {lt : α → α → Prop} {xs ys : List α} {p : α → Prop}
    (hlt : ∀ a b, lt a b → ¬ lt b a) (h : Enumerates lt xs p) (h' : Enumerates lt ys p) : xs = ys := by
  have hnodup : ∀ {zs}, Enumerates lt zs p → zs.Nodup := by
    intro zs hzs
    refine hzs.ascending.imp ?_
    rintro a b hab rfl
    exact hlt a a hab hab
  apply List.Perm.eq_of_pairwise _ h.ascending h'.ascending
  · rw [List.perm_ext_iff_of_nodup (hnodup h) (hnodup h')]
    intro x
    rw [h.mem_iff, h'.mem_iff]
  · intro a b _ _ hab hba
    exact absurd hba (hlt a b hab)

namespace Locale

instance : Std.TransOrd Locale := inferInstanceAs (Std.TransCmp
  (compareLex (compareOn language) (compareLex (compareOn country) (compareOn variant))))

variable {a b : Locale}

/-- By one text, and by another where the first is the same. -/
def Before (first second : Locale → String) (a b : Locale) : Prop :=
  first a < first b ∨ first a = first b ∧ second a < second b

theorem Before.asymm {first second : Locale → String} (h : Before first second a b) :
    ¬ Before first second b a := by
  rcases h with h | ⟨heq, h⟩ <;> rintro (h' | ⟨heq', h'⟩)
  · exact lt_asymm h h'
  · exact h.ne heq'.symm
  · exact h'.ne heq.symm
  · exact lt_asymm h h'

theorem compare_eq (a b : Locale) : compare a b = (compare a.language b.language).then
    ((compare a.country b.country).then (compare a.variant b.variant)) := rfl

instance : Std.LawfulEqOrd Locale where
  eq_of_compare {a b} h := by
    rw [compare_eq, Ordering.then_eq_eq, Ordering.then_eq_eq, Std.compare_eq_iff_eq,
      Std.compare_eq_iff_eq, Std.compare_eq_iff_eq] at h
    obtain ⟨hl, hc, hv⟩ := h
    cases a
    cases b
    simp_all

theorem compare_eq_lt_iff : compare a b = .lt ↔ a.language < b.language ∨
    a.language = b.language ∧ Before country variant a b := by
  rw [compare_eq, Ordering.then_eq_lt, Ordering.then_eq_lt, Std.compare_eq_iff_eq,
    Std.compare_eq_iff_eq, compare_lt_iff_lt, compare_lt_iff_lt, compare_lt_iff_lt, Before]

namespace Registry

open Association Run

variable {r r' : Registry} {floor : ℕ} {l : Locale} {x : Handle Locale} {p : Locale → Bool}
  {rs : List Request}

/-- The locales that were asked for since the registry was cleared last. -/
def cached (rs : List Request) : Set Locale := {l | ∃ q ∈ rs.rtakeWhile (· != .clear), Asks q l}

theorem mem_cached : l ∈ cached rs ↔ ((after respond {} rs).instances.get? l).isSome = true := by
  rw [knows_after, List.mem_filterMap]
  simp only [asked?_eq_some]
  rfl

theorem enumerates_languages (r : Registry) : Enumerates (· < ·) r.languages
    fun s ↦ s ≠ "" ∧ ∃ l, (r.instances.get? l).isSome = true ∧ l.language = s where
  ascending := (Sequence.ascending_withoutRepeats_sorted _).imp compare_lt_iff_lt.1
  mem_iff s := by
    rw [languages, Sequence.mem_withoutRepeats, Sequence.sorted,
      (Sequence.perm_sortedBy compare _).mem_iff, List.mem_map]
    simp only [List.mem_filter, HashedMap.mem_keys_iff, Bool.not_eq_true', String.isEmpty_eq_false_iff]
    constructor
    · rintro ⟨l, ⟨hl, hne⟩, rfl⟩
      exact ⟨hne, l, hl, rfl⟩
    · rintro ⟨hne, l, hl, rfl⟩
      exact ⟨l, ⟨hl, hne⟩, rfl⟩

namespace Sound

variable (hr : r.Sound floor)

include hr

theorem map_value_values : r.instances.values.map Handle.value = r.instances.keys := by
  rw [HashedMap.values, HashedMap.keys, List.map_map]
  refine List.map_congr_left fun e he ↦ ?_
  exact (hr.held (HashedMap.mem_entries_iff.1 he)).1

theorem enumerates_selected (p : Locale → Bool) :
    Enumerates (compare · · = .lt) ((r.selected p).map Handle.value)
      fun l ↦ (r.instances.get? l).isSome = true ∧ p l = true := by
  have hperm : ((r.selected p).map Handle.value).Perm (r.instances.keys.filter p) := by
    rw [← hr.map_value_values, List.filter_map]
    exact (Sequence.perm_sortedBy _ _).map Handle.value
  have hsorted : ((r.selected p).map Handle.value).Pairwise fun a b ↦ (compare a b).isLE := by
    rw [List.pairwise_map]
    exact Sequence.pairwise_sortedBy (compareOn Handle.value) _
  have hnodup : ((r.selected p).map Handle.value).Nodup :=
    hperm.nodup_iff.2 (r.instances.nodup_keys.filter _)
  constructor
  · refine (hsorted.and hnodup).imp fun {a b} hab ↦ ?_
    obtain ⟨hle, hne⟩ := hab
    cases hc : compare a b with
    | lt => rfl
    | eq => exact absurd (Std.compare_eq_iff_eq.1 hc) hne
    | gt => rw [hc] at hle; exact absurd hle nofun
  · intro l
    rw [hperm.mem_iff, List.mem_filter, HashedMap.mem_keys_iff]

theorem get?_of_mem_selected (hx : x ∈ r.selected p) : r.instances.get? x.value = some x := by
  have hin : x ∈ r.instances.values :=
    List.mem_of_mem_filter ((Sequence.perm_sortedBy _ _).mem_iff.1 hx)
  obtain ⟨e, he, rfl⟩ := List.mem_map.1 hin
  have hget := HashedMap.mem_entries_iff.1 he
  rwa [(hr.held hget).1]

theorem map_some_selected (p : Locale → Bool) :
    (r.selected p).map some = ((r.selected p).map Handle.value).map r.instances.get? := by
  rw [List.map_map]
  exact List.map_congr_left fun x hx ↦ (hr.get?_of_mem_selected hx).symm

theorem enumerates_ofCountry (s : String) :
    Enumerates (Before language variant) ((r.ofCountry s).map Handle.value)
      fun l ↦ (r.instances.get? l).isSome = true ∧ l.country = Text.upper (Text.trim s) := by
  have hall := hr.enumerates_selected (·.country == Text.upper (Text.trim s))
  simp only [beq_iff_eq] at hall
  refine ⟨hall.ascending.imp_of_mem ?_, hall.mem_iff⟩
  intro a b ha hb hab
  have hsame : a.country = b.country := ((hall.mem_iff a).1 ha).2.trans ((hall.mem_iff b).1 hb).2.symm
  rcases compare_eq_lt_iff.1 hab with hl | ⟨hl, hc | ⟨-, hv⟩⟩
  · exact .inl hl
  · exact absurd hsame hc.ne
  · exact .inr ⟨hl, hv⟩

theorem enumerates_ofLanguage (s : String) :
    Enumerates (Before country variant) ((r.ofLanguage s).map Handle.value)
      fun l ↦ (r.instances.get? l).isSome = true ∧ l.language = Text.lower (Text.trim s) := by
  have hall := hr.enumerates_selected (·.language == Text.lower (Text.trim s))
  simp only [beq_iff_eq] at hall
  refine ⟨hall.ascending.imp_of_mem ?_, hall.mem_iff⟩
  intro a b ha hb hab
  have hsame : a.language = b.language :=
    ((hall.mem_iff a).1 ha).2.trans ((hall.mem_iff b).1 hb).2.symm
  rcases compare_eq_lt_iff.1 hab with hl | ⟨-, hbefore⟩
  · exact absurd hsame hl.ne
  · exact hbefore

end Sound

/-- Registries that find the same instances, and differ in the order of these alone. -/
structure Alike (r r' : Registry) : Prop where
  cells : r'.cells = r.cells
  get? l : r'.instances.get? l = r.instances.get? l

namespace Alike

theorem refl (r : Registry) : r.Alike r := ⟨rfl, fun _ ↦ rfl⟩

theorem reorder (h : r.Alike r') {instances : HashedMap Locale (Handle Locale)}
    (hperm : instances.entries.Perm r'.instances.entries) :
    r.Alike { r' with instances := instances } where
  cells := h.cells
  get? l := by
    have hd : Distinct instances.entries := instances.distinct
    rw [← h.get? l]
    exact hd.value?_eq_of_perm hperm l

theorem intern (h : r.Alike r') (l : Locale) :
    (r.intern l).1 = (r'.intern l).1 ∧ (r.intern l).2.Alike (r'.intern l).2 := by
  have hget := h.get? l
  obtain ⟨x, hx, hintern⟩ | ⟨hx, hintern⟩ := r.intern_cases l <;>
    obtain ⟨y, hy, hintern'⟩ | ⟨hy, hintern'⟩ := r'.intern_cases l
  all_goals rw [hx, hy] at hget
  · obtain rfl := Option.some.inj hget
    rw [hintern, hintern']
    exact ⟨rfl, h⟩
  · cases hget
  · cases hget
  · rw [hintern, hintern', h.cells]
    refine ⟨rfl, rfl, fun l' ↦ ?_⟩
    rw [HashedMap.get?_put, HashedMap.get?_put, h.get?]

theorem respond (h : r.Alike r') (q : Request) :
    (r.respond q).2.Alike (r'.respond q).2 := by
  cases hq : asked? q with
  | some l =>
    rw [respond_of_asked hq, respond_of_asked hq]
    exact (h.intern l).2
  | none =>
    rcases respond_of_unasked r hq with rfl | ⟨e, he⟩
    · exact ⟨h.cells, fun _ ↦ rfl⟩
    · rcases respond_of_unasked r' hq with rfl | ⟨e', he'⟩
      · exact ⟨h.cells, fun _ ↦ rfl⟩
      · rwa [he, he']

theorem sound (h : r.Alike r') (hr : r.Sound floor) : r'.Sound floor where
  reached := h.cells ▸ hr.reached
  held hl := by
    rw [h.get?] at hl
    rw [h.cells]
    exact hr.held hl
  apart hl hl' := by
    rw [h.get?] at hl hl'
    exact hr.apart hl hl'

theorem selected (h : r.Alike r') (hr : r.Sound floor) (p : Locale → Bool) :
    r.selected p = r'.selected p := by
  have hr' := h.sound hr
  have hvalues : (r.selected p).map Handle.value = (r'.selected p).map Handle.value := by
    have hall := hr'.enumerates_selected p
    simp only [h.get?] at hall
    apply (hr.enumerates_selected p).eq _ hall
    intro a b hab hba
    rw [Std.OrientedCmp.gt_of_lt hab] at hba
    cases hba
  apply List.map_injective_iff.2 (Option.some_injective (Handle Locale))
  rw [hr.map_some_selected, hr'.map_some_selected, hvalues, funext h.get?]

end Alike

/-- The registries that requests may lead to, where the entries may come in another order at any time. -/
inductive Leads : List Request → Registry → Prop
  | start : Leads [] {}
  | respond {rs : List Request} {r : Registry} (q : Request) : Leads rs r →
    Leads (rs ++ [q]) (r.respond q).2
  | reorder {rs : List Request} {r : Registry} {instances : HashedMap Locale (Handle Locale)} :
    Leads rs r → instances.entries.Perm r.instances.entries →
      Leads rs { r with instances := instances }

/-- A registry is all that its requests make of it, but for the order of its entries. -/
theorem Leads.alike (h : Leads rs r) : (after Registry.respond {} rs).Alike r := by
  induction h with
  | start => exact .refl {}
  | respond q _ ih =>
    rw [after_append]
    exact ih.respond q
  | reorder _ hperm ih => exact ih.reorder hperm

theorem leads_after (rs : List Request) : Leads rs (after Registry.respond {} rs) := by
  induction rs using List.reverseRecOn with
  | nil => exact .start
  | append_singleton rs q ih =>
    rw [after_append]
    exact ih.respond q

theorem Leads.sound (h : Leads rs r) : r.Sound 0 :=
  h.alike.sound ((Sound.of_empty (Nat.zero_le _) rfl).after rs)

theorem Leads.mem_cached (h : Leads rs r) : l ∈ cached rs ↔ (r.instances.get? l).isSome = true := by
  rw [h.alike.get?, Registry.mem_cached]

/-- What a registry tells of the locales that are known to it. -/
structure Answers (r : Registry) (known : Set Locale) : Prop where
  languages : Enumerates (· < ·) r.languages fun s ↦ s ≠ "" ∧ ∃ l ∈ known, l.language = s
  ofCountry s : Enumerates (Before language variant) ((r.ofCountry s).map Handle.value)
    fun l ↦ l ∈ known ∧ l.country = Text.upper (Text.trim s)
  ofLanguage s : Enumerates (Before country variant) ((r.ofLanguage s).map Handle.value)
    fun l ↦ l ∈ known ∧ l.language = Text.lower (Text.trim s)

theorem Leads.answers (h : Leads rs r) : r.Answers (cached rs) where
  languages := by
    simp only [h.mem_cached]
    exact r.enumerates_languages
  ofCountry s := by
    simp only [h.mem_cached]
    exact h.sound.enumerates_ofCountry s
  ofLanguage s := by
    simp only [h.mem_cached]
    exact h.sound.enumerates_ofLanguage s

section

variable {known : Set Locale} (h : r.Answers known) (h' : r'.Answers known)

include h h'

theorem Answers.languages_eq : r.languages = r'.languages :=
  h.languages.eq (fun _ _ ↦ lt_asymm) h'.languages

theorem Answers.ofCountry_eq (s : String) :
    (r.ofCountry s).map Handle.value = (r'.ofCountry s).map Handle.value :=
  (h.ofCountry s).eq (fun _ _ ↦ Before.asymm) (h'.ofCountry s)

theorem Answers.ofLanguage_eq (s : String) :
    (r.ofLanguage s).map Handle.value = (r'.ofLanguage s).map Handle.value :=
  (h.ofLanguage s).eq (fun _ _ ↦ Before.asymm) (h'.ofLanguage s)

end

/-- What a registry tells is settled by the locales that were asked for since it was cleared last. The
instances that it shows are its own, and where the requests are the same, the order of its entries does
not matter to these either. -/
theorem queries_of_cached {rs' : List Request} (h : Leads rs r) (h' : Leads rs' r') :
    r.Answers (cached rs) ∧
    (∀ s, ∀ x ∈ r.ofCountry s ++ r.ofLanguage s, r.instances.get? x.value = some x) ∧
    (cached rs = cached rs' → r.languages = r'.languages ∧ ∀ s,
      (r.ofCountry s).map Handle.value = (r'.ofCountry s).map Handle.value ∧
      (r.ofLanguage s).map Handle.value = (r'.ofLanguage s).map Handle.value) ∧
    (rs = rs' → ∀ s, r.ofCountry s = r'.ofCountry s ∧ r.ofLanguage s = r'.ofLanguage s) := by
  refine ⟨h.answers, ?_, ?_, ?_⟩
  · intro s x hx
    rcases List.mem_append.1 hx with hx | hx <;> exact h.sound.get?_of_mem_selected hx
  · intro hsame
    have hanswers := h'.answers
    rw [← hsame] at hanswers
    exact ⟨h.answers.languages_eq hanswers,
      fun s ↦ ⟨h.answers.ofCountry_eq hanswers s, h.answers.ofLanguage_eq hanswers s⟩⟩
  · rintro rfl s
    have hselected : ∀ p, r.selected p = r'.selected p := by
      intro p
      have hsound : (after Registry.respond {} rs).Sound 0 := (leads_after rs).sound
      rw [← h.alike.selected hsound, ← h'.alike.selected hsound]
    exact ⟨hselected _, hselected _⟩

theorem queries_of_cached_reordered :
    let rs : List Request := [.pair "fr" "be", .clear, .tag "de_CH", .parts "DE" " at " "x",
      .tag "d_AT", .pair "" "at"]
    let rs' : List Request := [.tag "und-AT", .parts "de" "AT" "x ", .pair "de" "ch", .tag "de-CH"]
    let r : Registry := after Registry.respond {} rs
    let r' : Registry := after Registry.respond {} rs'
    Leads rs r ∧ Leads rs' r' ∧ cached rs = cached rs' ∧
      (r.ofLanguage "DE").map Handle.value = [⟨"de", "AT", "x"⟩, ⟨"de", "CH", ""⟩] ∧
      (r'.ofLanguage "DE").map Handle.value = [⟨"de", "AT", "x"⟩, ⟨"de", "CH", ""⟩] := by
  intro rs rs' r r'
  have h : Leads rs r := leads_after rs
  have h' : Leads rs' r' := leads_after rs'
  have hrs : ∀ l, l ∈ cached rs ↔ l ∈ [⟨"de", "CH", ""⟩, ⟨"de", "AT", "x"⟩, ⟨"", "AT", ""⟩] := by
    intro l
    rw [mem_cached, knows_after]
    rfl
  have hrs' : ∀ l, l ∈ cached rs' ↔
      l ∈ [⟨"", "AT", ""⟩, ⟨"de", "AT", "x"⟩, ⟨"de", "CH", ""⟩, ⟨"de", "CH", ""⟩] := by
    intro l
    rw [mem_cached, knows_after]
    rfl
  have hsame : cached rs = cached rs' := by
    ext l
    rw [hrs, hrs']
    simp only [List.mem_cons, List.not_mem_nil, or_false, or_self]
    tauto
  obtain ⟨hanswers, -, hequal, -⟩ := queries_of_cached h h'
  have hgerman : (r.ofLanguage "DE").map Handle.value =
      [⟨"de", "AT", "x"⟩, ⟨"de", "CH", ""⟩] := by
    apply (hanswers.ofLanguage "DE").eq (fun _ _ ↦ Before.asymm)
    constructor
    · exact List.pairwise_pair.2 (.inl (String.lt_iff_toList_lt.2 (by decide)))
    · intro l
      rw [hrs, show Text.lower (Text.trim "DE") = "de" from rfl]
      simp only [List.mem_cons, List.not_mem_nil, or_false]
      constructor
      · rintro (rfl | rfl) <;> simp
      · rintro ⟨rfl | rfl | rfl, hl⟩
        · exact .inr rfl
        · exact .inl rfl
        · simp at hl
  exact ⟨h, h', hsame, hgerman, ((hequal hsame).2 "DE").2 ▸ hgerman⟩

end Registry

end Locale

end Holdall
