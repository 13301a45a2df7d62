import Holdall.Locale.Registry
import Holdall.Proofs.Container.HashedMap
import Holdall.Proofs.Locale.Grammar
import Holdall.Proofs.Run

namespace Holdall.Locale.Registry

open Run

inductive Request
  | pair (language country : String)
  | parts (language country variant : String)
  | tag (text : String)
  | clear
  deriving DecidableEq

inductive Answer
  | handed (h : Handle Locale)
  | refused (e : TagError)
  | cleared (line : Log.Line)

def Answer.ofExcept : Except TagError (Handle Locale) → Answer
  | .ok h => handed h
  | .error e => refused e

def respond (r : Registry) : Request → Answer × Registry
  | .pair language country => (r.request language country "").map .handed id
  | .parts language country variant => (r.request language country variant).map .handed id
  | .tag text => (r.requestTag text).map .ofExcept id
  | .clear => r.clear.map .cleared id

def asked? : Request → Option Locale
  | .pair language country => some (ofParts language country "")
  | .parts language country variant => some (ofParts language country variant)
  | .tag text => (parse text).toOption
  | .clear => none

/-- What a request asks for by its own words: parts lose the blanks around them and get their case, and
a tag is read by the grammar, in which one language stands for none. -/
inductive Asks : Request → Locale → Prop
  | pair (language country : String) : Asks (.pair language country)
      ⟨Text.lower (Text.trim language), Text.upper (Text.trim country), ""⟩
  | parts (language country variant : String) : Asks (.parts language country variant)
      ⟨Text.lower (Text.trim language), Text.upper (Text.trim country), Text.trim variant⟩
  | tag {text : String} {L C V : List Char} : Written (Text.trim text).toList L C V →
      Accepted L C → Asks (.tag text) (spelled L C V)

variable {r : Registry} {q : Request} {l l' : Locale} {h h' : Handle Locale} {e : TagError}
  {floor : ℕ}

theorem asked?_tag {text : String} : asked? (.tag text) = some l ↔ parse text = .ok l := by
  rw [asked?]
  cases parse text with
  | ok l' => simp [Except.toOption]
  | error e => simp [Except.toOption]

theorem asked?_eq_some : asked? q = some l ↔ Asks q l := by
  have hpair : ∀ language country, ofParts language country "" =
      ⟨Text.lower (Text.trim language), Text.upper (Text.trim country), ""⟩ := fun _ _ ↦ by
    rw [ofParts, show Text.trim "" = "" from rfl]
  constructor
  · intro hq
    cases q with
    | pair language country =>
      rw [asked?, Option.some_inj, hpair] at hq
      rw [← hq]
      exact .pair language country
    | parts language country variant =>
      rw [asked?, Option.some_inj] at hq
      rw [← hq]
      exact .parts language country variant
    | tag text =>
      obtain ⟨L, C, V, hw, hacc, rfl⟩ := parse_eq_ok_iff.1 (asked?_tag.1 hq)
      exact .tag hw hacc
    | clear => exact absurd hq (Option.some_ne_none l).symm
  · intro hq
    cases hq with
    | pair language country => rw [asked?, hpair]
    | parts language country variant => rw [asked?, ofParts]
    | tag hw hacc => exact asked?_tag.2 (hw.parse_of_accepted hacc)

theorem respond_of_asked (hq : asked? q = some l) :
    r.respond q = (.handed (r.intern l).1, (r.intern l).2) := by
  cases q with
  | pair language country =>
    rw [asked?, Option.some_inj] at hq
    rw [← hq]
    rfl
  | parts language country variant =>
    rw [asked?, Option.some_inj] at hq
    rw [← hq]
    rfl
  | tag text =>
    rw [respond, requestTag, asked?_tag.1 hq]
    rfl
  | clear => exact absurd hq (Option.some_ne_none l).symm

theorem respond_of_error {text : String} (ht : parse text = .error e) :
    r.respond (.tag text) = (.refused e, r) := by
  rw [respond, requestTag, ht]
  rfl

theorem respond_of_unasked (r : Registry) (hq : asked? q = none) :
    q = .clear ∨ ∃ e, r.respond q = (.refused e, r) := by
  cases q with
  | pair language country => exact absurd hq (Option.some_ne_none _)
  | parts language country variant => exact absurd hq (Option.some_ne_none _)
  | tag text =>
    cases hread : parse text with
    | ok l =>
      rw [asked?_tag.2 hread] at hq
      exact absurd hq (Option.some_ne_none _)
    | error e => exact .inr ⟨e, respond_of_error hread⟩
  | clear => exact .inl rfl

theorem intern_cases (r : Registry) (l : Locale) :
    (∃ h, r.instances.get? l = some h ∧ r.intern l = (h, r)) ∨
      r.instances.get? l = none ∧ r.intern l = (⟨r.cells.next, l⟩,
        ⟨r.instances.put l ⟨r.cells.next, l⟩, ⟨r.cells.next + 1⟩⟩) := by
  rw [intern]
  cases r.instances.get? l with
  | some h => exact .inl ⟨h, rfl, rfl⟩
  | none => exact .inr ⟨rfl, rfl⟩

theorem get?_intern_self (r : Registry) (l : Locale) :
    (r.intern l).2.instances.get? l = some (r.intern l).1 := by
  obtain ⟨h, hget, hintern⟩ | ⟨-, hintern⟩ := r.intern_cases l
  · rw [hintern, hget]
  · rw [hintern, HashedMap.get?_put, if_pos BEq.rfl]

theorem get?_intern_of_ne (hne : l ≠ l') :
    (r.intern l).2.instances.get? l' = r.instances.get? l' := by
  obtain ⟨h, -, hintern⟩ | ⟨-, hintern⟩ := r.intern_cases l
  · rw [hintern]
  · rw [hintern, HashedMap.get?_put, if_neg (by simpa using hne)]

theorem get?_intern (hget : r.instances.get? l' = some h) (l : Locale) :
    (r.intern l).2.instances.get? l' = some h := by
  by_cases hl : l = l'
  · subst hl
    obtain ⟨h', hget', hintern⟩ | ⟨hnone, -⟩ := r.intern_cases l
    · rwa [hintern]
    · rw [hnone] at hget
      cases hget
  · rwa [get?_intern_of_ne hl]

theorem get?_after {rs : List Request} (hrs : .clear ∉ rs) (hget : r.instances.get? l = some h) :
    (after respond r rs).instances.get? l = some h := by
  induction rs generalizing r with
  | nil => exact hget
  | cons q rs ih =>
    rw [List.mem_cons, not_or] at hrs
    apply ih hrs.2
    change (r.respond q).2.instances.get? l = some h
    cases hq : asked? q with
    | some l' =>
      rw [respond_of_asked hq]
      exact get?_intern hget l'
    | none =>
      rcases respond_of_unasked r hq with rfl | ⟨e, he⟩
      · exact absurd rfl hrs.1
      · rwa [he]

/-- Each locale has its instance in a cell of its own, which is no cell below a floor. -/
structure Sound (floor : ℕ) (r : Registry) : Prop where
  reached : floor ≤ r.cells.next
  held : ∀ {l h}, r.instances.get? l = some h →
    h.value = l ∧ floor ≤ h.cell ∧ h.cell < r.cells.next
  apart : ∀ {l l' h h'}, r.instances.get? l = some h → r.instances.get? l' = some h' →
    h.cell = h'.cell → l = l'

namespace Sound

theorem of_empty (hr : floor ≤ r.cells.next) (hempty : r.instances = {}) : r.Sound floor where
  reached := hr
  held hget := by simp [hempty] at hget
  apart hget := by simp [hempty] at hget

theorem intern (hr : r.Sound floor) (l : Locale) : (r.intern l).2.Sound floor := by
  obtain ⟨h, -, hintern⟩ | ⟨-, hintern⟩ := r.intern_cases l
  · rwa [hintern]
  · -- An instance is the new one, or it is there before, in a cell below the new one.
    have hnew : ∀ {l₁ h₁}, (r.instances.put l ⟨r.cells.next, l⟩).get? l₁ = some h₁ →
        (l₁ = l ∧ h₁ = ⟨r.cells.next, l⟩) ∨ r.instances.get? l₁ = some h₁ := by
      intro l₁ h₁ hget
      rw [HashedMap.get?_put] at hget
      split at hget
      · exact .inl ⟨(eq_of_beq ‹_›).symm, (Option.some.inj hget).symm⟩
      · exact .inr hget
    rw [hintern]
    refine ⟨Nat.le_succ_of_le hr.reached, ?_, ?_⟩
    · intro l₁ h₁ hget
      rcases hnew hget with ⟨rfl, rfl⟩ | hold
      · exact ⟨rfl, hr.reached, Nat.lt_succ_self _⟩
      · obtain ⟨hvalue, hfloor, hlt⟩ := hr.held hold
        exact ⟨hvalue, hfloor, Nat.lt_succ_of_lt hlt⟩
    · intro l₁ l₂ h₁ h₂ hget₁ hget₂ hcell
      rcases hnew hget₁ with ⟨rfl, rfl⟩ | hold₁ <;> rcases hnew hget₂ with ⟨rfl, rfl⟩ | hold₂
      · rfl
      · exact absurd hcell (hr.held hold₂).2.2.ne'
      · exact absurd hcell (hr.held hold₁).2.2.ne
      · exact hr.apart hold₁ hold₂ hcell

theorem respond (hr : r.Sound floor) (q : Request) : (r.respond q).2.Sound floor := by
  cases hq : asked? q with
  | some l =>
    rw [respond_of_asked hq]
    exact hr.intern l
  | none =>
    rcases respond_of_unasked r hq with rfl | ⟨e, he⟩
    · exact of_empty hr.reached rfl
    · rwa [he]

theorem after (hr : r.Sound floor) (rs : List Request) :
    (after Registry.respond r rs).Sound floor :=
  after_induction (fun _ q h ↦ h.respond q) hr rs

end Sound

theorem knows_respond (hq : q ≠ .clear) : ((r.respond q).2.instances.get? l).isSome = true ↔
    (r.instances.get? l).isSome = true ∨ asked? q = some l := by
  cases hasked : asked? q with
  | some l' =>
    rw [respond_of_asked hasked]
    by_cases hl : l' = l
    · subst hl
      rw [get?_intern_self]
      simp
    · rw [get?_intern_of_ne hl]
      simp [hl]
  | none =>
    rcases respond_of_unasked r hasked with hclear | ⟨e, he⟩
    · exact absurd hclear hq
    · rw [he]
      simp

theorem knows_after (rs : List Request) (l : Locale) :
    ((after respond {} rs).instances.get? l).isSome = true ↔
      l ∈ (rs.rtakeWhile (· != .clear)).filterMap asked? := by
  apply knows_after_iff (P := fun (r : Registry) l ↦ (r.instances.get? l).isSome = true)
  · intro r q l hq
    exact knows_respond (by simpa using hq)
  · intro r q l hq
    obtain rfl : q = .clear := by simpa using hq
    exact Bool.false_ne_true
  · intro l
    exact Bool.false_ne_true

theorem size_after (rs : List Request) : (after respond {} rs).size =
    ((rs.rtakeWhile (· != .clear)).filterMap asked?).toFinset.card :=
  HashedMap.size_eq_card (knows_after rs)

theorem cell_eq_iff (hr : r.Sound floor) (l l' : Locale) (between : List Request) :
    (r.intern l).1.cell = ((after respond (r.intern l).2 between).intern l').1.cell ↔
      .clear ∉ between ∧ l = l' := by
  have hfirst := hr.intern l
  by_cases hclear : .clear ∈ between
  · refine iff_of_false ?_ fun h ↦ h.1 hclear
    obtain ⟨pre, post, rfl, hpre⟩ := List.eq_append_cons_of_mem hclear
    have hbelow := ((hfirst.after pre).held (get?_after hpre (get?_intern_self r l))).2.2
    have hcleared := Sound.of_empty (r := ((after respond (r.intern l).2 pre).respond .clear).2)
      le_rfl rfl
    have habove := (((hcleared.after post).intern l').held (get?_intern_self _ _)).2.1
    rw [after_append]
    exact (hbelow.trans_le habove).ne
  · have hfirst' := get?_intern (get?_after hclear (get?_intern_self r l)) l'
    have hsecond := get?_intern_self (after respond (r.intern l).2 between) l'
    constructor
    · intro hcell
      exact ⟨hclear, ((hfirst.after between).intern l').apart hfirst' hsecond hcell⟩
    · intro h
      obtain ⟨-, rfl⟩ := h
      rw [hsecond, Option.some_inj] at hfirst'
      rw [hfirst']

theorem Sound.handed (hr : r.Sound floor) (hh : (r.respond q).1 = .handed h) :
    asked? q = some h.value ∧ r.respond q = (.handed h, (r.intern h.value).2) ∧
      (r.intern h.value).1 = h := by
  cases hq : asked? q with
  | some l =>
    rw [respond_of_asked hq] at hh ⊢
    have hintern : (r.intern l).1 = h := Answer.handed.inj hh
    have hvalue := ((hr.intern l).held (get?_intern_self _ _)).1
    rw [hintern] at hvalue ⊢
    rw [hvalue]
    exact ⟨rfl, rfl, hintern⟩
  | none =>
    rcases respond_of_unasked r hq with rfl | ⟨e, he⟩
    · exact absurd hh nofun
    · rw [he] at hh
      exact absurd hh nofun

/-- Each request for a locale is given an instance of it. Two instances are one if and only if they are
of one locale and the registry was not cleared between them. The registry has as many locales as came
up since it was cleared last, and a tag in error leaves it as it is. -/
theorem instances_shared (before between : List Request) (q q' : Request) :
    let r : Registry := after respond {} before
    let r' : Registry := after respond {} (before ++ q :: between)
    (∀ l, asked? q = some l ↔ Asks q l) ∧
    (∀ l, asked? q = some l → ∃ h, (r.respond q).1 = .handed h ∧ h.value = l) ∧
    (∀ text e, q = .tag text → parse text = .error e → r.respond q = (.refused e, r)) ∧
    (∀ h h', (r.respond q).1 = .handed h → (r'.respond q').1 = .handed h' →
      asked? q = some h.value ∧ asked? q' = some h'.value ∧
        (h.cell = h'.cell ↔ .clear ∉ between ∧ asked? q = asked? q')) ∧
    r.size = ((before.rtakeWhile (· != .clear)).filterMap asked?).toFinset.card := by
  intro r r'
  have hempty : Sound 0 {} := .of_empty (Nat.zero_le _) rfl
  have hr : r.Sound 0 := hempty.after before
  have hr' : r'.Sound 0 := hempty.after (before ++ q :: between)
  refine ⟨fun _ ↦ asked?_eq_some, ?_, ?_, ?_, size_after before⟩
  · intro l hq
    rw [respond_of_asked hq]
    exact ⟨_, rfl, ((hr.intern l).held (get?_intern_self _ _)).1⟩
  · intro text e hq he
    rw [hq, respond_of_error he]
  · intro h h' hh hh'
    obtain ⟨hq, hrespond, hintern⟩ := hr.handed hh
    obtain ⟨hq', -, hintern'⟩ := hr'.handed hh'
    refine ⟨hq, hq', ?_⟩
    have hnext : r' = after respond (r.intern h.value).2 between := by
      have hlast : (r.respond q).2 = (r.intern h.value).2 := by rw [hrespond]
      rw [← hlast]
      exact after_append respond {} before (q :: between)
    have hcell := cell_eq_iff hr h.value h'.value between
    rw [← hnext, hintern, hintern'] at hcell
    rw [hcell, hq, hq', Option.some_inj]

theorem instances_shared_undetermined :
    let before : List Request := [.pair "de" "at"]
    let q : Request := .tag "und-AT"
    let between : List Request := [.tag "d_AT", .pair "DE" "AT"]
    let q' : Request := .pair "" " at "
    let r : Registry := after respond {} before
    let r' : Registry := after respond {} (before ++ q :: between)
    let h : Handle Locale := ⟨1, ⟨"", "AT", ""⟩⟩
    (r.respond q).1 = .handed h ∧ (r'.respond q').1 = .handed h ∧
      (.clear ∉ between ∧ asked? q = asked? q') ∧
      r.respond (.tag "d_AT") = (.refused (.badLanguage "d_AT"), r) ∧
      r'.size = 2 := by
  intro before q between q' r r' h
  have hq : (r.respond q).1 = .handed h := rfl
  have hq' : (r'.respond q').1 = .handed h := rfl
  refine ⟨hq, hq', ?_, ?_, rfl⟩
  · exact ((instances_shared before between q q').2.2.2.1 h h hq hq').2.2.1 rfl
  · exact (instances_shared before between (.tag "d_AT") q').2.2.1 "d_AT" _ rfl rfl

end Holdall.Locale.Registry
