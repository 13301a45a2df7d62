import Holdall.Locale.Lookup
import Mathlib.Data.List.Sort
import Mathlib.Data.Set.Subsingleton
import Mathlib.Data.String.Basic

namespace Holdall

open Sequence

theorem ascending_of_chain {codes : List String} (h : codes.IsChain (compare · · = .lt)) :
    codes.Pairwise (compare · · = .lt) := by
  have : Trans (fun a b : String ↦ compare a b = .lt) (fun a b ↦ compare a b = .lt)
      (fun a b ↦ compare a b = .lt) := ⟨Std.TransCmp.lt_trans⟩
  exact h.pairwise

theorem Language.ascending_codes : (table.toList.map code).Pairwise (compare · · = .lt) :=
  ascending_of_chain (by decide +kernel)

theorem Language.name?_eq_some_iff {code name : String} :
    name? code = some name ↔ ⟨code, name⟩ ∈ table := by
  have hplaced : Placed table fun l ↦ compare l.code code := .of_ascending ascending_codes code
  rw [name?, Option.map_eq_some_iff]
  constructor
  · rintro ⟨l, hl, rfl⟩
    obtain ⟨hin, hcode⟩ := hplaced.search?_eq_some_iff.1 hl
    rw [← Std.LawfulEqOrd.eq_of_compare hcode]
    exact hin
  · intro hin
    exact ⟨⟨code, name⟩, hplaced.search?_eq_some_iff.2 ⟨hin, Std.ReflCmp.compare_self⟩, rfl⟩

namespace Country

variable {c : Country} {code : String}

theorem ascending_alpha2 : (table.toList.map alpha2).Pairwise (compare · · = .lt) :=
  ascending_of_chain (by decide +kernel)

theorem nodup_alpha3 : (table.toList.map alpha3).Nodup := by
  have hsorted : ((table.toList.map alpha3).insertionSort (· ≤ ·)).IsChain (· < ·) := by
    decide +kernel
  exact (List.perm_insertionSort (· ≤ ·) _).nodup_iff.1 hsorted.pairwise.nodup

theorem sizes (h : c ∈ table) : c.alpha2.utf8ByteSize = 2 ∧ c.alpha3.utf8ByteSize = 3 := by
  have hall : (table.toList.all fun c ↦
      c.alpha2.utf8ByteSize == 2 && c.alpha3.utf8ByteSize == 3) = true := by decide +kernel
  simpa using List.all_eq_true.1 hall c h.val

theorem byAlpha2?_eq_some_iff : byAlpha2? code = some c ↔ c ∈ table ∧ c.alpha2 = code := by
  rw [byAlpha2?, (Placed.of_ascending ascending_alpha2 code).search?_eq_some_iff,
    Std.compare_eq_iff_eq]

theorem byAlpha3?_eq_some_iff : byAlpha3? code = some c ↔ c ∈ table ∧ c.alpha3 = code := by
  constructor
  · intro h
    exact ⟨Array.mem_of_find?_eq_some h, by simpa using Array.find?_some h⟩
  · rintro ⟨hin, rfl⟩
    obtain ⟨c', hc'⟩ : ∃ c', byAlpha3? c.alpha3 = some c' := by
      rw [← Option.isSome_iff_exists, byAlpha3?, Array.find?_isSome]
      exact ⟨c, hin, beq_self_eq_true c.alpha3⟩
    have hin' : c' ∈ table := Array.mem_of_find?_eq_some hc'
    have hcode : c'.alpha3 = c.alpha3 := by simpa using Array.find?_some hc'
    rw [hc', List.inj_on_of_nodup_map nodup_alpha3 hin'.val hin.val hcode]

theorem byCode?_eq_some_iff : byCode? code = some c ↔
    c ∈ table ∧ (normalCode code = c.alpha2 ∨ normalCode code = c.alpha3) := by
  rw [byCode?]
  constructor
  · intro h
    split at h
    · obtain ⟨hin, hcode⟩ := byAlpha2?_eq_some_iff.1 h
      exact ⟨hin, .inl hcode.symm⟩
    · obtain ⟨hin, hcode⟩ := byAlpha3?_eq_some_iff.1 h
      exact ⟨hin, .inr hcode.symm⟩
    · cases h
  · rintro ⟨hin, hcode | hcode⟩
    · rw [hcode, (sizes hin).1]
      exact byAlpha2?_eq_some_iff.2 ⟨hin, rfl⟩
    · rw [hcode, (sizes hin).2]
      exact byAlpha3?_eq_some_iff.2 ⟨hin, rfl⟩

end Country

theorem subsingleton_of_found {α : Type} {found : Option α} {p : α → Prop}
    (h : ∀ x, found = some x ↔ p x) : {x | p x}.Subsingleton := by
  intro x hx y hy
  have hfound : found = some x := (h x).2 hx
  exact Option.some.inj (hfound.symm.trans ((h y).2 hy))

/-- Whatever the code, a lookup finds the row of the table that bears it, and no more than one row
does. A code in any case and with blanks around it stands for itself trimmed and in upper case, and is
then the code of two letters or the one of three. -/
theorem lookup_iff_row (code : String) :
    (∀ name, Language.name? code = some name ↔ ⟨code, name⟩ ∈ Language.table) ∧
    (∀ c, Country.byAlpha2? code = some c ↔ c ∈ Country.table ∧ c.alpha2 = code) ∧
    (∀ c, Country.byAlpha3? code = some c ↔ c ∈ Country.table ∧ c.alpha3 = code) ∧
    (let key := Text.upper (Text.trim code)
     (∀ c, Country.byCode? code = some c ↔ c ∈ Country.table ∧ (key = c.alpha2 ∨ key = c.alpha3)) ∧
     {c | c ∈ Country.table ∧ (key = c.alpha2 ∨ key = c.alpha3)}.Subsingleton) ∧
    {name | ⟨code, name⟩ ∈ Language.table}.Subsingleton ∧
    {c | c ∈ Country.table ∧ c.alpha2 = code}.Subsingleton ∧
    {c | c ∈ Country.table ∧ c.alpha3 = code}.Subsingleton := by
  have hname : ∀ name, Language.name? code = some name ↔ ⟨code, name⟩ ∈ Language.table :=
    fun _ ↦ Language.name?_eq_some_iff
  have htwo : ∀ c, Country.byAlpha2? code = some c ↔ c ∈ Country.table ∧ c.alpha2 = code :=
    fun _ ↦ Country.byAlpha2?_eq_some_iff
  have hthree : ∀ c, Country.byAlpha3? code = some c ↔ c ∈ Country.table ∧ c.alpha3 = code :=
    fun _ ↦ Country.byAlpha3?_eq_some_iff
  have hcode : ∀ c, Country.byCode? code = some c ↔ c ∈ Country.table ∧
      (Country.normalCode code = c.alpha2 ∨ Country.normalCode code = c.alpha3) :=
    fun _ ↦ Country.byCode?_eq_some_iff
  exact ⟨hname, htwo, hthree, ⟨hcode, subsingleton_of_found hcode⟩, subsingleton_of_found hname,
    subsingleton_of_found htwo, subsingleton_of_found hthree⟩

/-- A letter outside ASCII takes two bytes, like a code, and names no country. -/
example : Country.byCode? " é " = none ∧ (Country.byCode? " deu ").map Country.alpha2 = some "DE" := by
  decide +kernel

end Holdall
