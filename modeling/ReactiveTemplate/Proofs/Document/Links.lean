import Mathlib.Logic.Relation
import ReactiveTemplate.Document.Basic

/-!
# Parent and child links

A document writes each link twice: the child names its parent, the parent lists its children. `Linked`
says that the two agree, that no child is listed twice and that no node lies below itself. The lemmas
here follow the links alone through the four ways in which a step changes them: a node is cut off,
hung in at the end, put at the place of another, or taken away with all below it.
-/

namespace ReactiveTemplate.Document

open Relation

variable {L : Type} {d d' : Document L}

/-- `p` is the parent of `n`. -/
def Climbs (d : Document L) (n p : NodeId) : Prop :=
  d.parent? n = some p

/-- `n` lies below `a`. -/
def Below (d : Document L) (n a : NodeId) : Prop :=
  TransGen d.Climbs n a

/-- `n` is `a` or lies below it. -/
def Within (d : Document L) (n a : NodeId) : Prop :=
  ReflTransGen d.Climbs n a

/-- Both ways of writing down links agree, and the links form trees. -/
structure Linked (d : Document L) : Prop where
  parent_of_mem : ∀ {p c}, c ∈ d.children p → d.parent? c = some p
  mem_of_parent : ∀ {p c}, d.parent? c = some p → c ∈ d.children p
  nodup : ∀ p, (d.children p).Nodup
  acyclic : ∀ n, ¬ d.Below n n

/-- A node has one parent. -/
theorem climbs_rightUnique : Relator.RightUnique d.Climbs := by
  intro n p q hp hq
  exact Option.some.inj (hp.symm.trans hq)

/-- A node without a parent is below nothing. -/
theorem eq_of_within_of_parent_none {n a : NodeId} (hroot : d.parent? n = none)
    (h : d.Within n a) : n = a := by
  rcases ReflTransGen.cases_head h with heq | ⟨p, hp, _⟩
  · exact heq
  · rw [Climbs, hroot] at hp
    contradiction

/-- Of two nodes above the same one, one is above the other. -/
theorem within_total {n a b : NodeId} (ha : d.Within n a) (hb : d.Within n b) :
    d.Within a b ∨ d.Within b a :=
  ReflTransGen.total_of_right_unique climbs_rightUnique ha hb

/-- With one more edge, a path that is not an old one runs through that edge. -/
theorem transGen_of_insert {α : Type} {r r' : α → α → Prop} {c p : α}
    (hedge : ∀ a b, r' a b → r a b ∨ (a = c ∧ b = p)) {a b : α} (h : TransGen r' a b) :
    TransGen r a b ∨ (ReflTransGen r a c ∧ ReflTransGen r p b) := by
  induction h with
  | single hab =>
    rcases hedge _ _ hab with hold | ⟨rfl, rfl⟩
    · exact Or.inl (.single hold)
    · exact Or.inr ⟨.refl, .refl⟩
  | tail _ hbc ih =>
    rcases hedge _ _ hbc with hold | ⟨rfl, rfl⟩
    · rcases ih with hpath | ⟨hbefore, hbehind⟩
      · exact Or.inl (hpath.tail hold)
      · exact Or.inr ⟨hbefore, hbehind.tail hold⟩
    · rcases ih with hpath | ⟨hbefore, _⟩
      · exact Or.inr ⟨hpath.to_reflTransGen, .refl⟩
      · exact Or.inr ⟨hbefore, .refl⟩

namespace Linked

/-- Fewer links make no cycle. -/
theorem acyclic_mono (h : d.Linked) (hsub : ∀ n p, d'.parent? n = some p → d.parent? n = some p)
    (n : NodeId) : ¬ d'.Below n n := by
  intro hcycle
  exact h.acyclic n (TransGen.mono hsub _ _ hcycle)

/-- A new link closes a cycle only if the parent already lies within the child. -/
theorem acyclic_insert (h : d.Linked) {c p : NodeId} (hpath : ¬ d.Within p c)
    (hsub : ∀ n q, d'.parent? n = some q → d.parent? n = some q ∨ (n = c ∧ q = p)) (n : NodeId) :
    ¬ d'.Below n n := by
  intro hcycle
  rcases transGen_of_insert hsub hcycle with hold | ⟨hbefore, hbehind⟩
  · exact h.acyclic n hold
  · exact hpath (hbehind.trans hbefore)

/-- What a node says of its links is all that counts. -/
theorem congr (h : d.Linked) (hparent : ∀ n, d'.parent? n = d.parent? n)
    (hchildren : ∀ n, d'.children n = d.children n) : d'.Linked where
  parent_of_mem hc := by
    rw [hchildren] at hc
    rw [hparent, h.parent_of_mem hc]
  mem_of_parent hp := by
    rw [hparent] at hp
    rw [hchildren]
    exact h.mem_of_parent hp
  nodup p := by
    rw [hchildren]
    exact h.nodup p
  acyclic := h.acyclic_mono fun n p hp => (hparent n).symm.trans hp

/-- A node is not its own parent. -/
theorem ne_of_parent (h : d.Linked) {n p : NodeId} (hp : d.parent? n = some p) : n ≠ p := by
  intro heq
  subst heq
  exact h.acyclic n (.single hp)

/-- Cutting a node off keeps the links in order. -/
theorem cut (h : d.Linked) {n : NodeId} (hparent : ∀ m, d'.parent? m = if m = n then none else d.parent? m)
    (hchildren : ∀ m, d'.children m = (d.children m).filter (· ≠ n)) : d'.Linked where
  parent_of_mem {p c} hc := by
    rw [hchildren, List.mem_filter] at hc
    have hne : c ≠ n := by simpa using hc.2
    rw [hparent, if_neg hne, h.parent_of_mem hc.1]
  mem_of_parent {p c} hp := by
    rw [hparent] at hp
    split at hp
    · contradiction
    · next hne =>
      rw [hchildren, List.mem_filter]
      exact ⟨h.mem_of_parent hp, by simpa using hne⟩
  nodup p := by
    rw [hchildren]
    exact (h.nodup p).filter _
  acyclic := h.acyclic_mono fun m p hp => by
    rw [hparent] at hp
    split at hp
    · contradiction
    · exact hp

/-- A node without a parent gets a place among the children of `p`, of which some may be gone. This keeps the links
in order, unless `p` lies within the node. -/
theorem seat (h : d.Linked) (gone : NodeId → Prop) [DecidablePred gone] {c p : NodeId} {family : List NodeId}
    (hroot : d.parent? c = none) (hpath : ¬ d.Within p c) (hgone : ∀ n, gone n → d.parent? n = some p)
    (hnodup : family.Nodup) (hfamily : ∀ n, n ∈ family ↔ n = c ∨ n ∈ d.children p ∧ ¬ gone n)
    (hparent : ∀ m, d'.parent? m = if gone m then none else if m = c then some p else d.parent? m)
    (hchildren : ∀ m, d'.children m = if m = p then family else d.children m) : d'.Linked where
  parent_of_mem {q n} hn := by
    have hkeep {r : NodeId} (hold : d.parent? n = some r) (hkept : ¬ gone n) : d'.parent? n = some r := by
      have hne : n ≠ c := by
        intro heq
        rw [heq, hroot] at hold
        contradiction
      rw [hparent, if_neg hkept, if_neg hne, hold]
    rw [hchildren] at hn
    split at hn
    · next hq =>
      rcases (hfamily n).mp hn with hnew | ⟨hold, hkept⟩
      · have hkept : ¬ gone n := by
          intro hg
          have hold := hgone n hg
          rw [hnew, hroot] at hold
          contradiction
        rw [hparent, if_neg hkept, if_pos hnew, hq]
      · rw [hq]
        exact hkeep (h.parent_of_mem hold) hkept
    · next hq =>
      have hold := h.parent_of_mem hn
      exact hkeep hold fun hg => hq (Option.some.inj (hold.symm.trans (hgone n hg)))
  mem_of_parent {q n} hn := by
    rw [hparent] at hn
    rw [hchildren]
    split at hn
    · contradiction
    · next hkept =>
      split at hn
      · next hnew =>
        rw [if_pos (Option.some.inj hn).symm]
        exact (hfamily n).mpr (Or.inl hnew)
      · have hold := h.mem_of_parent hn
        split
        · next hq => exact (hfamily n).mpr (Or.inr ⟨hq ▸ hold, hkept⟩)
        · exact hold
  nodup q := by
    rw [hchildren]
    split
    · exact hnodup
    · exact h.nodup q
  acyclic := h.acyclic_insert hpath fun m q hm => by
    rw [hparent] at hm
    split at hm
    · contradiction
    · split at hm
      · next hmc => exact Or.inr ⟨hmc, (Option.some.inj hm).symm⟩
      · exact Or.inl hm

/-- A node without a parent is nobody's child. -/
theorem not_mem_children (h : d.Linked) {c : NodeId} (hroot : d.parent? c = none) (p : NodeId) :
    c ∉ d.children p := by
  intro hmem
  rw [h.parent_of_mem hmem] at hroot
  contradiction

/-- Hanging in a node without a parent keeps the links in order, unless its new parent lies within it. -/
theorem hang (h : d.Linked) {c p : NodeId} (hroot : d.parent? c = none) (hpath : ¬ d.Within p c)
    (hparent : ∀ m, d'.parent? m = if m = c then some p else d.parent? m)
    (hchildren : ∀ m, d'.children m = if m = p then d.children p ++ [c] else d.children m) :
    d'.Linked := by
  have hout := h.not_mem_children hroot p
  refine h.seat (fun _ => False) hroot hpath (fun _ => False.elim) ?_ (fun n => ?_) hparent hchildren
  · exact List.nodup_append.mpr ⟨h.nodup p, by simp, by grind⟩
  · simp [or_comm]

/-- Putting a node without a parent at the place of a child keeps the links in order, unless the parent
lies within the new node. -/
theorem swap (h : d.Linked) {old new p : NodeId} {front back : List NodeId}
    (hold : d.parent? old = some p) (hroot : d.parent? new = none) (hpath : ¬ d.Within p new)
    (hfamily : d.children p = front ++ old :: back)
    (hparent : ∀ m, d'.parent? m = if m = old then none else if m = new then some p else d.parent? m)
    (hchildren : ∀ m, d'.children m = if m = p then front ++ new :: back else d.children m) :
    d'.Linked := by
  have hnodup := h.nodup p
  have hout := h.not_mem_children hroot p
  rw [hfamily] at hnodup hout
  refine h.seat (· = old) hroot hpath (fun n hn => hn ▸ hold) ?_ (fun n => ?_) hparent hchildren
  · grind
  · rw [hfamily]
    grind

/-- Taking nodes away keeps the links in order if every link stays inside or outside of them. -/
theorem prune (h : d.Linked) (gone : NodeId → Prop) [DecidablePred gone]
    (hclosed : ∀ n p, d.parent? n = some p → (gone n ↔ gone p))
    (hparent : ∀ m, d'.parent? m = if gone m then none else d.parent? m)
    (hchildren : ∀ m, d'.children m = if gone m then [] else d.children m) : d'.Linked where
  parent_of_mem {p c} hc := by
    rw [hchildren] at hc
    split at hc
    · contradiction
    · next hp =>
      have hlink := h.parent_of_mem hc
      rw [hparent, if_neg fun hg => hp ((hclosed c p hlink).mp hg), hlink]
  mem_of_parent {p c} hp := by
    rw [hparent] at hp
    split at hp
    · contradiction
    · next hc =>
      rw [hchildren, if_neg fun hg => hc ((hclosed c p hp).mpr hg)]
      exact h.mem_of_parent hp
  nodup p := by
    rw [hchildren]
    split
    · exact List.nodup_nil
    · exact h.nodup p
  acyclic := h.acyclic_mono fun m p hp => by
    rw [hparent] at hp
    split at hp
    · contradiction
    · exact hp

end Linked

end ReactiveTemplate.Document
