import Holdall.Attribute.Bag
import Holdall.Proofs.Overlay

namespace Holdall.Attribute.Bag

open Association

/-- What can come of an empty bag. -/
inductive Built : Bag → Prop
  | empty : Built .empty
  | set {b : Bag} (h : Built b) (name : String) (v : Value) : Built (b.set name v).2
  | remove {b : Bag} (h : Built b) (name : String) : Built (b.remove name).2
  | clear {b : Bag} (h : Built b) : Built b.clear
  | extend {b : Bag} (h : Built b) (pairs : List (String × Value)) : Built (b.extend pairs)
  | merge {b other : Bag} (h : Built b) (h' : Built other) : Built (b.merge other)

def Shows (b : Bag) (es : List (String × Value)) : Prop := b.entries.Shows .insertion es

variable {a b c : Bag} {es es' : List (String × Value)}

theorem shows_empty : Bag.empty.Shows [] := OrderedMap.shows_empty .insertion

theorem entries_extend (b : Bag) (pairs : List (String × Value)) :
    (b.extend pairs).entries = b.entries.extend pairs := by
  induction pairs generalizing b with
  | nil => rfl
  | cons p pairs ih => exact ih (b.adding p.1 p.2)

theorem merge_eq_extend (a b : Bag) : a.merge b = a.extend b.toList :=
  congrArg Bag.mk (entries_extend a b.toList).symm

namespace Shows

theorem toList (h : b.Shows es) : b.toList = es := OrderedMap.Shows.toList h

theorem distinct (h : b.Shows es) : Distinct es := OrderedMap.Shows.distinct h

theorem get? (h : b.Shows es) (name : String) : b.get? name = value? es name :=
  OrderedMap.Shows.peek? h name

theorem contains (h : b.Shows es) (name : String) : b.contains name = hasKey es name :=
  OrderedMap.Shows.contains h name

theorem extend (h : b.Shows es) (pairs : List (String × Value)) :
    (b.extend pairs).Shows (overlay es pairs) := by
  rw [Shows, entries_extend]
  exact OrderedMap.Shows.extend h pairs

theorem merge (h : a.Shows es) (h' : b.Shows es') : (a.merge b).Shows (overlay es es') := by
  rw [merge_eq_extend, h'.toList]
  exact h.extend es'

end Shows

theorem Built.shows (h : Built b) : ∃ es, b.Shows es := by
  induction h with
  | empty => exact ⟨[], shows_empty⟩
  | set _ name v ih =>
    obtain ⟨es, hes⟩ := ih
    exact ⟨_, (OrderedMap.Shows.insert hes name v).2⟩
  | remove _ name ih =>
    obtain ⟨es, hes⟩ := ih
    exact ⟨_, (OrderedMap.Shows.remove hes name).2⟩
  | @clear b _ ih =>
    obtain ⟨es, hes⟩ := ih
    have hempty : b.clear.entries.Shows b.entries.order [] := OrderedMap.shows_empty _
    rw [OrderedMap.Shows.order_eq hes] at hempty
    exact ⟨[], hempty⟩
  | extend _ pairs ih =>
    obtain ⟨es, hes⟩ := ih
    exact ⟨_, hes.extend pairs⟩
  | merge _ _ ih ih' =>
    obtain ⟨es, hes⟩ := ih
    obtain ⟨es', hes'⟩ := ih'
    exact ⟨_, hes.merge hes'⟩

/-- A merged bag has the names of the first bag, with the values of the second where it has any, and
then the entries of the second whose names the first lacks. Merging is associative, an empty bag changes
nothing on either side, nor does a bag merged into itself; and it is storing the other's entries. -/
theorem merge_monoid (ha : Built a) (hb : Built b) (hc : Built c) :
    (a.merge b).toList = a.toList.map (fun e ↦ (e.1, (b.get? e.1).getD e.2)) ++
      b.toList.filter (fun e ↦ !a.contains e.1) ∧
    ((a.merge b).merge c).toList = (a.merge (b.merge c)).toList ∧
    (a.merge .empty).toList = a.toList ∧ (Bag.empty.merge a).toList = a.toList ∧
    (a.merge a).toList = a.toList ∧
    a.merge b = a.extend b.toList := by
  obtain ⟨s, hs⟩ := ha.shows
  obtain ⟨t, ht⟩ := hb.shows
  obtain ⟨u, hu⟩ := hc.shows
  refine ⟨?_, ?_, ?_, ?_, ?_, merge_eq_extend a b⟩
  · simp only [(hs.merge ht).toList, hs.toList, ht.toList, ht.get?, hs.contains]
    exact overlay_eq s ht.distinct
  · rw [((hs.merge ht).merge hu).toList, (hs.merge (ht.merge hu)).toList]
    exact overlay_assoc hs.distinct ht.distinct hu.distinct
  · rfl
  · rw [(shows_empty.merge hs).toList, hs.toList, nil_overlay hs.distinct]
  · rw [(hs.merge hs).toList, hs.toList, overlay_self hs.distinct]

theorem merge_monoid_overlapping :
    let a := ofList [("x", .int 1), ("y", .int 2)]
    let b := ofList [("z", .int 3), ("x", .int 4)]
    let c := ofList [("y", .text "v"), ("w", .bool true), ("z", .int 5)]
    Built a ∧ Built b ∧ Built c ∧
    (a.merge b).toList = [("x", .int 4), ("y", .int 2), ("z", .int 3)] ∧
    (b.merge c).toList = [("z", .int 5), ("x", .int 4), ("y", .text "v"), ("w", .bool true)] ∧
    ((a.merge b).merge c).toList = (a.merge (b.merge c)).toList ∧
    (Bag.empty.merge a).toList = a.toList ∧ (a.merge a).toList = a.toList := by
  intro a b c
  have ha : Built a := .extend .empty _
  have hb : Built b := .extend .empty _
  have hc : Built c := .extend .empty _
  have hs : a.Shows [("x", .int 1), ("y", .int 2)] := shows_empty.extend _
  have ht : b.Shows [("z", .int 3), ("x", .int 4)] := shows_empty.extend _
  have hu : c.Shows [("y", .text "v"), ("w", .bool true), ("z", .int 5)] := shows_empty.extend _
  obtain ⟨hab, hassoc, -, hleft, hself, -⟩ := merge_monoid ha hb hc
  have hbc := (merge_monoid hb hc ha).1
  simp only [hs.toList, ht.toList, ht.get?, hs.contains] at hab
  simp only [ht.toList, hu.toList, hu.get?, ht.contains] at hbc
  exact ⟨ha, hb, hc, hab.trans rfl, hbc.trans rfl, hassoc, hleft, hself⟩

end Holdall.Attribute.Bag
