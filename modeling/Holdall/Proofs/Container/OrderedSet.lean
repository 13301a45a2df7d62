import Holdall.Container.OrderedSet
import Holdall.Proofs.OrderedMap.Refinement
import Holdall.Proofs.Stamp
import Mathlib.Data.List.Induction

namespace Holdall

variable {α : Type} [BEq α]

namespace OrderedSet

inductive Request (α : Type)
  | insert (x : α)
  | extend (xs : List α)
  | remove (x : α)
  | contains (x : α)
  | first
  | last
  | popFirst
  | clear

inductive Answer (α : Type)
  | flag (b : Bool)
  | item (x : Option α)
  | done

def respond [Hashable α] (s : OrderedSet α) : Request α → Answer α × OrderedSet α
  | .insert x => (s.insert x).map .flag id
  | .extend xs => (.done, s.extend xs)
  | .remove x => (s.remove x).map .flag id
  | .contains x => (.flag (s.contains x), s)
  | .first => (.item s.first?, s)
  | .last => (.item s.last?, s)
  | .popFirst => s.popFirst.map .item id
  | .clear => (.done, s.clear)

def Request.single : Request α → List (Request α)
  | .extend xs => xs.map .insert
  | r => [r]

omit [BEq α] in
theorem Request.ne_extend_of_single (r : Request α) {r' : Request α} (hr : r' ∈ r.single)
    (ys : List α) : r' ≠ .extend ys := by
  cases r with
  | extend xs =>
    obtain ⟨x, -, rfl⟩ := List.mem_map.1 hr
    exact nofun
  | _ =>
    rw [List.mem_singleton.1 hr]
    exact nofun

end OrderedSet

namespace Lineup

open OrderedSet

variable {xs ys : List α} {x : α}

def Distinct (xs : List α) : Prop := xs.Pairwise fun x y ↦ (x == y) = false

def has (xs : List α) (x : α) : Bool := xs.any (· == x)

/-- An item goes to the end, unless an equal one is there. -/
def add (xs : List α) (x : α) : List α := if has xs x then xs else xs ++ [x]

def without (xs : List α) (x : α) : List α := xs.filter fun y ↦ !(y == x)

def respond (xs : List α) : Request α → Answer α × List α
  | .insert x => (.flag (!has xs x), add xs x)
  | .extend ys => (.done, ys.foldl add xs)
  | .remove x => (.flag (has xs x), without xs x)
  | .contains x => (.flag (has xs x), xs)
  | .first => (.item xs.head?, xs)
  | .last => (.item xs.getLast?, xs)
  | .popFirst => (.item xs.head?, xs.tail)
  | .clear => (.done, [])

theorem not_has_iff : has xs x = false ↔ ∀ y ∈ xs, (y == x) = false := by
  simp [has]

def entries (xs : List α) : List (α × Unit) := xs.map fun x ↦ (x, ())

omit [BEq α] in
@[simp] theorem keys_entries (xs : List α) : (entries xs).map Prod.fst = xs := by
  rw [entries, List.map_map]
  exact List.map_id' xs

theorem hasKey_entries (xs : List α) (x : α) : Association.hasKey (entries xs) x = has xs x := by
  rw [entries, Association.hasKey, List.any_map]
  rfl

theorem has_keys {V : Type} (s : List (α × V)) (k : α) :
    has (s.map Prod.fst) k = Association.hasKey s k := by
  rw [has, Association.hasKey, List.any_map]
  rfl

theorem without_entries (xs : List α) (x : α) :
    Association.without (entries xs) x = entries (without xs x) := by
  rw [entries, Association.without, List.filter_map]
  rfl

theorem insert_entries (h : has xs x = false) :
    Association.insert .insertion (entries xs) x () = entries (add xs x) := by
  rw [Association.insert, hasKey_entries, add, h, if_neg Bool.false_ne_true,
    if_neg Bool.false_ne_true, entries, entries, List.map_append, List.map_singleton]

theorem beq_entries_iff (xs ys : List α) : (entries xs == entries ys) = true ↔
    List.Forall₂ (fun x y ↦ (x == y) = true) xs ys := by
  induction xs generalizing ys with
  | nil => cases ys <;> simp [entries]
  | cons x xs ih =>
    cases ys with
    | nil => simp [entries]
    | cons y ys =>
      have hrest := ih ys
      simp only [entries] at hrest
      simp only [entries, List.map_cons, List.cons_beq_cons, Bool.and_eq_true, hrest,
        List.forall₂_cons]
      refine and_congr_left fun _ ↦ ?_
      exact Bool.and_true (x == y) ▸ Iff.rfl

end Lineup

namespace OrderedSet

open Lineup Run

variable [Hashable α] {s : OrderedSet α} {xs : List α}

/-- The set stands for the list `xs`. -/
def Shows (s : OrderedSet α) (xs : List α) : Prop := s.entries.Shows .insertion (Lineup.entries xs)

theorem shows_empty : (empty : OrderedSet α).Shows [] := OrderedMap.shows_empty .insertion

abbrev Call (α : Type) [BEq α] [Hashable α] := Run.Call (OrderedSet α) (Request α) (Answer α)

def enters (x : α) (c : Call α) : Bool :=
  match c.request, c.answer with
  | .insert y, .flag added => x == y && added
  | _, _ => false

namespace Shows

theorem items (h : s.Shows xs) : s.items = xs := by
  rw [OrderedSet.items, OrderedMap.keys, OrderedMap.Shows.toList h, keys_entries]

theorem distinct (h : s.Shows xs) : Distinct xs := by
  have hd := OrderedMap.Shows.distinct h
  rwa [Association.Distinct, keys_entries] at hd

theorem size (h : s.Shows xs) : s.size = xs.length := by
  rw [OrderedSet.size, OrderedMap.Shows.size h, Lineup.entries, List.length_map]

theorem first? (h : s.Shows xs) : s.first? = xs.head? := by
  have hyields := OrderedMap.Shows.cursor_yields h
  rw [OrderedSet.first?]
  cases xs with
  | nil =>
    cases hyields with
    | done hnone => rw [hnone]; rfl
  | cons x xs =>
    cases hyields with
    | next hnext => rw [hnext]; rfl

theorem last? (h : s.Shows xs) : s.last? = xs.getLast? := by
  rw [OrderedSet.last?, OrderedMap.Shows.newest? h, Lineup.entries, List.getLast?_map, Option.map_map]
  exact congrFun Option.map_id xs.getLast?

theorem beq_iff {t : OrderedSet α} {ys : List α} (h : s.Shows xs) (h' : t.Shows ys) :
    (s == t) = true ↔ List.Forall₂ (fun x y ↦ (x == y) = true) xs ys := by
  change (s.entries == t.entries) = true ↔ _
  rw [OrderedMap.Shows.beq_eq h h', beq_entries_iff]

theorem clear (h : s.Shows xs) : s.clear.Shows [] := by
  have hempty : s.entries.clear.Shows s.entries.order [] := OrderedMap.shows_empty s.entries.order
  rwa [OrderedMap.Shows.order_eq h] at hempty

variable [EquivBEq α] [LawfulHashable α]

theorem popFirst (h : s.Shows xs) : s.popFirst.1 = xs.head? ∧ s.popFirst.2.Shows xs.tail := by
  obtain ⟨hentry, hrest⟩ := OrderedMap.Shows.popEldest h
  rw [Lineup.entries, ← List.map_tail] at hrest
  refine ⟨?_, hrest⟩
  change s.entries.popEldest.1.map Prod.fst = xs.head?
  rw [hentry, Lineup.entries, List.head?_map, Option.map_map]
  exact congrFun Option.map_id xs.head?

theorem contains (h : s.Shows xs) (x : α) : s.contains x = has xs x := by
  rw [OrderedSet.contains, OrderedMap.Shows.contains h, hasKey_entries]

theorem insert (h : s.Shows xs) (x : α) :
    (s.insert x).1 = !has xs x ∧ (s.insert x).2.Shows (add xs x) := by
  rw [OrderedSet.insert, h.contains]
  cases hx : has xs x with
  | true =>
    rw [add, hx]
    exact ⟨rfl, h⟩
  | false =>
    have hstored := (OrderedMap.Shows.insert h x ()).2
    rw [insert_entries hx] at hstored
    exact ⟨rfl, hstored⟩

theorem extend (h : s.Shows xs) (ys : List α) : (s.extend ys).Shows (ys.foldl add xs) := by
  induction ys generalizing s xs with
  | nil => exact h
  | cons y ys ih => exact ih (h.insert y).2

theorem remove (h : s.Shows xs) (x : α) :
    (s.remove x).1 = has xs x ∧ (s.remove x).2.Shows (without xs x) := by
  obtain ⟨hvalue, hrest⟩ := OrderedMap.Shows.remove h x
  rw [without_entries] at hrest
  refine ⟨?_, hrest⟩
  change (s.entries.remove x).1.isSome = has xs x
  rw [hvalue, Association.isSome_value?, hasKey_entries]

theorem respond (h : s.Shows xs) (r : Request α) :
    (s.respond r).1 = (Lineup.respond xs r).1 ∧ (s.respond r).2.Shows (Lineup.respond xs r).2 := by
  cases r with
  | insert x => exact ⟨congrArg Answer.flag (h.insert x).1, (h.insert x).2⟩
  | extend ys => exact ⟨rfl, h.extend ys⟩
  | remove x => exact ⟨congrArg Answer.flag (h.remove x).1, (h.remove x).2⟩
  | contains x => exact ⟨congrArg Answer.flag (h.contains x), h⟩
  | first => exact ⟨congrArg Answer.item h.first?, h⟩
  | last => exact ⟨congrArg Answer.item h.last?, h⟩
  | popFirst => exact ⟨congrArg Answer.item h.popFirst.1, h.popFirst.2⟩
  | clear => exact ⟨rfl, h.clear⟩

theorem after (h : s.Shows xs) (rs : List (Request α)) :
    (Run.after OrderedSet.respond s rs).Shows (Run.after Lineup.respond xs rs) :=
  Run.after_simulate (P := Shows) (fun _ _ r _ h ↦ (h.respond r).2) h

theorem inOrder_respond (h : s.Shows xs) {cs : List (Call α)} (hcs : InOrder enters cs xs)
    {r : Request α} (hr : ∀ ys, r ≠ .extend ys) :
    InOrder enters (cs ++ [call OrderedSet.respond s r]) (Lineup.respond xs r).2 := by
  have hanswer := (h.respond r).1
  cases r with
  | insert x =>
    cases hx : has xs x with
    | true =>
      have hidle : ∀ y ∈ xs, enters y (call OrderedSet.respond s (.insert x)) = false := by
        intro y _
        simp [enters, call, hanswer, Lineup.respond, hx]
      rw [Lineup.respond, add, if_pos hx]
      exact hcs.keep hidle
    | false =>
      rw [Lineup.respond, add, if_neg (by simp [hx])]
      apply hcs.push
      · intro y hy
        have hne := not_has_iff.1 hx y hy
        simp [enters, call, hanswer, Lineup.respond, hne]
      · simp [enters, call, hanswer, Lineup.respond, hx]
  | extend ys => exact absurd rfl (hr ys)
  | remove x => exact (hcs.keep fun _ _ ↦ rfl).sublist List.filter_sublist
  | popFirst => exact (hcs.keep fun _ _ ↦ rfl).sublist (List.tail_sublist xs)
  | clear => exact (hcs.keep fun _ _ ↦ rfl).sublist (List.nil_sublist xs)
  | contains x | first | last => exact hcs.keep fun _ _ ↦ rfl

end Shows

theorem after_single (s : OrderedSet α) (rs : List (Request α)) :
    after respond s (rs.flatMap Request.single) = after respond s rs := by
  induction rs generalizing s with
  | nil => rfl
  | cons r rs ih =>
    have hr : after respond s r.single = (respond s r).2 := by
      cases r with
      | extend xs => exact List.foldl_map
      | _ => rfl
    rw [List.flatMap_cons, after_append, hr, ih]
    rfl

variable [EquivBEq α] [LawfulHashable α]

theorem inOrder_after {rs : List (Request α)} (hrs : ∀ r ∈ rs, ∀ ys, r ≠ .extend ys) :
    InOrder enters (calls respond empty rs) (after Lineup.respond [] rs) := by
  induction rs using List.reverseRecOn with
  | nil => exact ⟨fun _ ↦ 0, nofun, .nil⟩
  | append_singleton rs r ih =>
    rw [List.forall_mem_append] at hrs
    rw [calls_append, after_append]
    exact ((shows_empty).after rs).inOrder_respond (ih hrs.1) (hrs.2 r List.mem_cons_self)

/-- A set answers like a list, whose items it shows after each request. They are all different, and in
the order in which they last entered the set. Two sets are equal if they show equal items in turn. -/
theorem refines_list (rs : List (Request α)) :
    List.Forall₂ (fun x y ↦ x.1 = y.1 ∧ x.2.items = y.2 ∧ x.2.size = y.2.length ∧ Distinct y.2)
        (steps respond (empty : OrderedSet α) rs) (steps Lineup.respond [] rs) ∧
      (let s : OrderedSet α := after respond empty rs
       let singles := rs.flatMap Request.single
       after respond empty singles = s ∧ InOrder enters (calls respond empty singles) s.items) ∧
      ∀ rs', let s : OrderedSet α := after respond empty rs
        let t := after respond empty rs'
        (s == t) = true ↔ List.Forall₂ (fun x y ↦ (x == y) = true) s.items t.items := by
  have hempty : (empty : OrderedSet α).Shows [] := shows_empty
  refine ⟨?_, ?_, ?_⟩
  · have hsteps := steps_simulate (P := Shows) (fun _ _ r h ↦ h.respond r) hempty rs
    exact hsteps.imp fun _ _ ⟨ha, h⟩ ↦ ⟨ha, h.items, h.size, h.distinct⟩
  · intro s singles
    have hsingles : ∀ r ∈ singles, ∀ ys, r ≠ .extend ys := by
      intro r hr ys
      obtain ⟨r', -, hr'⟩ := List.mem_flatMap.1 hr
      exact r'.ne_extend_of_single hr' ys
    have horder := inOrder_after hsingles
    rw [← (hempty.after singles).items, after_single] at horder
    exact ⟨after_single empty rs, horder⟩
  · intro rs' s t
    have hs := hempty.after rs
    have ht := hempty.after rs'
    rw [hs.items, ht.items]
    exact hs.beq_iff ht

theorem refines_list_folded : EquivBEq Item ∧ LawfulHashable Item ∧
    let rs : List (Request Item) := [.extend [.folded "a", .text "b", .folded "A"],
      .insert (.folded "A"), .remove (.folded "A"), .insert (.folded "A"), .last, .popFirst]
    List.Forall₂ (fun x y ↦ x.1 = y.1 ∧ x.2.items = y.2 ∧ x.2.size = y.2.length ∧ Distinct y.2)
        (steps respond (empty : OrderedSet Item) rs)
        [(.done, [.folded "a", .text "b"]), (.flag false, [.folded "a", .text "b"]),
          (.flag true, [.text "b"]), (.flag true, [.text "b", .folded "A"]),
          (.item (some (.folded "A")), [.text "b", .folded "A"]),
          (.item (some (.text "b")), [.folded "A"])] ∧
      InOrder enters (calls respond (empty : OrderedSet Item) (rs.flatMap Request.single))
        (after respond empty rs).items ∧
      let t := after respond (empty : OrderedSet Item) [.insert (.folded "a")]
      (after respond empty rs == t) = true ↔
        List.Forall₂ (fun x y ↦ (x == y) = true) (after respond empty rs).items t.items :=
  ⟨inferInstance, inferInstance, (refines_list _).1, (refines_list _).2.1.2, (refines_list _).2.2 _⟩

end OrderedSet

end Holdall
