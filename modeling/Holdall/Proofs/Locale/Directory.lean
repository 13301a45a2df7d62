import Holdall.Locale.Directory
import Holdall.Proofs.Container.HashedMap
import Holdall.Proofs.Run

namespace Holdall.Country.Directory

open Run

inductive Request
  | country (code : String)
  | countries
  | codes
  | clear
  deriving DecidableEq

inductive Answer
  | country (c : Option Country)
  | countries (cs : Handle (List Country))
  | codes (cs : List String)
  | cleared (line : Log.Line)

def respond (d : Directory) : Request → Answer × Directory
  | .country code =>
    let (c, d) := country? d code
    (.country c, d)
  | .countries => d.countries.map .countries id
  | .codes => (.codes codes, d)
  | .clear => d.clear.map .cleared id

def foundCode? : Request → Option String
  | .country code => (byCode? code).map fun _ ↦ normalCode code
  | _ => none

def byName : List Country := Sequence.sortedByKey Country.name table.toList

variable {d : Directory} {code : String} {c : Country}

theorem lookup_cases (d : Directory) (code : String) :
    (∃ c, d.found.get? (normalCode code) = some c ∧
      d.respond (.country code) = (.country (some c), d)) ∨
    d.found.get? (normalCode code) = none ∧
      ((∃ c, byCode? code = some c ∧ d.respond (.country code) =
        (.country (some c), { d with found := d.found.put (normalCode code) c })) ∨
      byCode? code = none ∧ d.respond (.country code) = (.country none, d)) := by
  rw [respond, country?, byCode?_normalCode]
  cases d.found.get? (normalCode code) with
  | some c => exact .inl ⟨c, rfl, rfl⟩
  | none =>
    refine .inr ⟨rfl, ?_⟩
    cases byCode? code with
    | some c => exact .inl ⟨c, rfl, rfl⟩
    | none => exact .inr ⟨rfl, rfl⟩

theorem countries_cases (d : Directory) : (∃ h, d.sorted = some h ∧ d.countries = (h, d)) ∨
    d.countries = (⟨d.cells.next, byName⟩,
      ⟨d.found, some ⟨d.cells.next, byName⟩, ⟨d.cells.next + 1⟩⟩) := by
  rw [countries, ← byName]
  cases d.sorted with
  | some h => exact .inl ⟨h, rfl, rfl⟩
  | none => exact .inr rfl

theorem found_countries (d : Directory) : d.countries.2.found = d.found := by
  obtain ⟨h, -, heq⟩ | heq := d.countries_cases <;> rw [heq]

/-- What is remembered is what would be worked out again. -/
structure Sound (d : Directory) : Prop where
  found : ∀ key c, d.found.get? key = some c → byCode? key = some c
  sorted : ∀ h, d.sorted = some h → h.value = byName

namespace Sound

theorem of_empty (hfound : d.found = {}) (hsorted : d.sorted = none) : d.Sound where
  found key c hget := by simp [hfound] at hget
  sorted h hlisted := by simp [hsorted] at hlisted

theorem lookup (h : d.Sound) (code : String) :
    (d.respond (.country code)).1 = .country (byCode? code) ∧
      (d.respond (.country code)).2.Sound := by
  obtain ⟨c, hc, heq⟩ | ⟨-, ⟨c, hc, heq⟩ | ⟨hc, heq⟩⟩ := d.lookup_cases code
  · rw [heq, ← byCode?_normalCode, h.found _ _ hc]
    exact ⟨rfl, h⟩
  · rw [heq, hc]
    refine ⟨rfl, ?_, h.sorted⟩
    intro key c' hget
    rw [HashedMap.get?_put] at hget
    by_cases hkey : normalCode code = key
    · rw [if_pos (beq_iff_eq.2 hkey)] at hget
      rw [← hkey, byCode?_normalCode, hc, hget]
    · rw [if_neg (by simpa using hkey)] at hget
      exact h.found key c' hget
  · rw [heq, hc]
    exact ⟨rfl, h⟩

theorem countries (h : d.Sound) : d.countries.1.value = byName ∧ d.countries.2.Sound := by
  obtain ⟨listed, hlisted, heq⟩ | heq := d.countries_cases
  · rw [heq]
    exact ⟨h.sorted listed hlisted, h⟩
  · rw [heq]
    refine ⟨rfl, h.found, ?_⟩
    intro listed hlisted
    rw [← Option.some.inj hlisted]

theorem respond (h : d.Sound) (r : Request) : (d.respond r).2.Sound := by
  cases r with
  | country code => exact (h.lookup code).2
  | countries => exact h.countries.2
  | codes => exact h
  | clear => exact of_empty rfl rfl

theorem after (h : d.Sound) (rs : List Request) : (after Directory.respond d rs).Sound :=
  after_induction (fun _ r h ↦ h.respond r) h rs

end Sound

theorem foundCode?_country {key : String} : foundCode? (.country code) = some key ↔
    (byCode? code).isSome = true ∧ normalCode code = key := by
  rw [foundCode?]
  cases byCode? code <;> simp

theorem knows_respond {r : Request} {key : String} (hr : r ≠ .clear) :
    ((d.respond r).2.found.get? key).isSome = true ↔
      (d.found.get? key).isSome = true ∨ foundCode? r = some key := by
  cases r with
  | country code =>
    rw [foundCode?_country]
    obtain ⟨c, hc, heq⟩ | ⟨-, ⟨c, hc, heq⟩ | ⟨hc, heq⟩⟩ := d.lookup_cases code
    · rw [heq]
      refine (or_iff_left_of_imp ?_).symm
      intro hkey
      rw [← hkey.2, hc, Option.isSome_some]
    · rw [heq, hc, HashedMap.get?_put]
      by_cases hkey : normalCode code = key
      · simp [hkey]
      · simp [hkey]
    · rw [heq, hc]
      simp
  | countries =>
    change (d.countries.2.found.get? key).isSome = true ↔ _
    rw [found_countries]
    simp [foundCode?]
  | codes => simp [foundCode?, Directory.respond]
  | clear => exact absurd rfl hr

theorem size_after (rs : List Request) : (after respond {} rs).size =
    ((rs.rtakeWhile (· != .clear)).filterMap foundCode?).toFinset.card := by
  apply HashedMap.size_eq_card
  apply knows_after_iff (P := fun (d : Directory) key ↦ (d.found.get? key).isSome = true)
  · intro d r key hr
    exact knows_respond (by simpa using hr)
  · intro d r key hr
    obtain rfl : r = .clear := by simpa using hr
    exact Bool.false_ne_true
  · intro key
    exact Bool.false_ne_true

/-- A directory finds what is found without it, and keeps no trace of a lookup that fails. It lists the
same countries every time, each country once and in the order of their names. Its size is the number
of codes that were found since it was cleared last. -/
theorem transparent (before : List Request) :
    let d : Directory := after respond {} before
    (∀ code, (d.respond (.country code)).1 = .country (byCode? code)) ∧
    (∀ code, byCode? code = none → (d.respond (.country code)).2 = d) ∧
    (∃ h, (d.respond .countries).1 = .countries h ∧ h.value = byName) ∧
    (d.respond .countries).2.found = d.found ∧
    byName.Perm table.toList ∧ byName.Pairwise (fun c c' ↦ (compare c.name c'.name).isLE) ∧
    d.size = ((before.rtakeWhile (· != .clear)).filterMap foundCode?).toFinset.card := by
  intro d
  have hd : d.Sound := (Sound.of_empty rfl rfl).after before
  refine ⟨?_, ?_, ?_, ?_, ?_, ?_, size_after before⟩
  · intro code
    exact (hd.lookup code).1
  · intro code hcode
    obtain ⟨c, hc, -⟩ | ⟨-, ⟨c, hc, -⟩ | ⟨-, heq⟩⟩ := d.lookup_cases code
    · have hfound := hd.found _ _ hc
      rw [byCode?_normalCode, hcode] at hfound
      exact absurd hfound nofun
    · rw [hcode] at hc
      exact absurd hc nofun
    · exact congrArg Prod.snd heq
  · exact ⟨_, rfl, hd.countries.1⟩
  · exact found_countries d
  · exact Sequence.perm_sortedBy _ _
  · exact Sequence.pairwise_sortedBy (compareOn Country.name) _

theorem transparent_unknown :
    let before : List Request :=
      [.country "AUT", .clear, .country " at", .countries, .country "At"]
    let d : Directory := after respond {} before
    byCode? "x" = none ∧ (d.respond (.country "x")).1 = .country none ∧
      (d.respond (.country "x")).2 = d ∧ d.size = 1 := by
  intro before d
  have hx : byCode? "x" = none := rfl
  obtain ⟨hanswer, hfailed, -, -, -, -, hsize⟩ := transparent before
  refine ⟨hx, ?_, hfailed "x" hx, ?_⟩
  · rw [hanswer, hx]
  · rw [hsize]
    decide +kernel

end Holdall.Country.Directory
