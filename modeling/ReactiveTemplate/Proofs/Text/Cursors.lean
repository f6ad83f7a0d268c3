import Mathlib
import ReactiveTemplate.Text.Cursor
import ReactiveTemplate.Proofs.Text.Runs

/-!
# Cursors on texts that were written

What was written at a cursor is read, and the cursor moves behind it. Items that were written with
separators between them are read in order, each at its place.
-/

namespace ReactiveTemplate.Text

namespace Cursor

section Steps

variable {p : Char → Bool} {taken rest : List Char}

/-- The cursor moves behind what is written. -/
theorem advance_append (offset : Nat) (taken rest : List Char) :
    advance ⟨offset, taken ++ rest⟩ taken.length = ⟨offset + byteSize taken, rest⟩ := by
  rw [advance, List.take_left, List.drop_left]

/-- The cursor moves behind an expected character. -/
theorem past?_cons (offset : Nat) (c : Char) (rest : List Char) :
    past? ⟨offset, c :: rest⟩ c = some ⟨offset + c.utf8Size, rest⟩ := by
  simp [past?, advance]

/-- Another character, or the end, is not passed. -/
theorem past?_of_ends {c : Char} (h : Ends (· == c) rest) (offset : Nat) :
    past? ⟨offset, rest⟩ c = none := by
  cases rest with
  | nil => rfl
  | cons d rest =>
    have hd : d ≠ c := by simpa using h d rfl
    simp [past?, hd]

/-- A run is skipped up to where its class ends. -/
theorem skip_append (htaken : ∀ c ∈ taken, p c = true) (hrest : Ends p rest) (offset : Nat) :
    skip ⟨offset, taken ++ rest⟩ p = ⟨offset + byteSize taken, rest⟩ := by
  rw [skip, leading, takeWhile_append_of_ends htaken hrest, advance_append]

/-- Nothing is skipped where a class ends. -/
theorem skip_of_ends (h : Ends p rest) (offset : Nat) : skip ⟨offset, rest⟩ p = ⟨offset, rest⟩ :=
  skip_append (List.forall_mem_nil _) h offset

/-- A run is read up to where its class ends. -/
theorem run?_append (hne : taken ≠ []) (htaken : ∀ c ∈ taken, p c = true) (hrest : Ends p rest)
    (offset : Nat) : run? ⟨offset, taken ++ rest⟩ p = some (taken, ⟨offset + byteSize taken, rest⟩) := by
  rw [run?, leading, takeWhile_append_of_ends htaken hrest, skip_append htaken hrest]
  cases taken with
  | nil => contradiction
  | cons c more => rfl

end Steps

/-! ### Items with separators -/

/-- What is written for an item, and the item that is read where it begins at some byte. -/
structure Written (α : Type) where
  chars : List Char
  value : Nat → α

/-- The items of a text that begins at `start` and has a separator between any two of them. -/
def located {α : Type} (separator : Char) (start : Nat) : List (Written α) → List α
  | [] => []
  | w :: ws => w.value start :: located separator (start + byteSize w.chars + separator.utf8Size) ws

/-- An item is read as it was written, if what follows it is right. -/
def Reads {α : Type} (item : Cursor → Option (α × Cursor)) (Follows : List Char → Prop) (w : Written α) : Prop :=
  ∀ offset rest, Follows rest →
    item ⟨offset, w.chars ++ rest⟩ = some (w.value offset, ⟨offset + byteSize w.chars, rest⟩)

/-- What is written for some items, with a separator between any two of them. -/
def joined {α : Type} (separator : Char) (ws : List (Written α)) : List Char :=
  [separator].intercalate (ws.map Written.chars)

section Separated

variable {α : Type} {item : Cursor → Option (α × Cursor)} {separator : Char} {trailing : Bool}
  {Follows : List Char → Prop} {ws : List (Written α)} {tail : List Char}

/-- What is written for items that each follow a separator. -/
def continued (separator : Char) (ws : List (Written α)) : List Char :=
  ws.flatMap fun w => separator :: w.chars

/-- The first item, and the others each behind a separator. -/
theorem joined_cons (separator : Char) (w : Written α) (ws : List (Written α)) :
    joined separator (w :: ws) = w.chars ++ continued separator ws := by
  induction ws generalizing w with
  | nil => simp [joined, continued]
  | cons next ws ih =>
    rw [joined, List.map_cons, List.map_cons, List.intercalate_cons_cons, ← List.map_cons]
    change w.chars ++ [separator] ++ joined separator (next :: ws) = _
    rw [ih]
    simp [continued]

/-- Behind an item there is a separator or the tail. -/
theorem follows_continued (hseparator : ∀ rest, Follows (separator :: rest)) (htail : Follows tail) :
    Follows (continued separator ws ++ tail) := by
  cases ws with
  | nil => exact htail
  | cons w ws => exact hseparator _

/-- Each item takes a character at least, with its separator. -/
theorem length_le_continued (separator : Char) (ws : List (Written α)) :
    ws.length ≤ (continued separator ws).length := by
  induction ws with
  | nil => exact Nat.zero_le _
  | cons w ws ih =>
    rw [continued, List.flatMap_cons, List.length_append, List.length_cons, List.length_cons]
    rw [continued] at ih
    omega

/-- Items that each follow a separator are read in order. -/
theorem moreItems_continued (hreads : ∀ w ∈ ws, Reads item Follows w)
    (hseparator : ∀ rest, Follows (separator :: rest)) (htail : Follows tail)
    (hends : Ends (· == separator) tail) {fuel : Nat} (hfuel : ws.length ≤ fuel) (offset : Nat) :
    moreItems item separator trailing fuel ⟨offset, continued separator ws ++ tail⟩ =
      (located separator (offset + separator.utf8Size) ws,
        ⟨offset + byteSize (continued separator ws), tail⟩) := by
  induction ws generalizing fuel offset with
  | nil =>
    cases fuel with
    | zero => rfl
    | succ fuel =>
      rw [continued, List.flatMap_nil, List.nil_append, moreItems, past?_of_ends hends]
      rfl
  | cons w ws ih =>
    obtain ⟨hw, hws⟩ := List.forall_mem_cons.mp hreads
    obtain ⟨fuel, rfl⟩ := Nat.exists_eq_add_of_le' (Nat.one_le_of_lt hfuel)
    have hchars : continued separator (w :: ws) = separator :: (w.chars ++ continued separator ws) := by
      simp [continued]
    have hitem := hw (offset + separator.utf8Size) (continued separator ws ++ tail)
      (follows_continued hseparator htail)
    rw [hchars, List.cons_append, List.append_assoc, moreItems, past?_cons]
    simp only [hitem, ih hws (Nat.le_of_succ_le_succ hfuel)]
    simp only [located, byteSize_cons, byteSize_append, Nat.add_assoc]

/-- Items are read in order, each at its place. -/
theorem separated_joined (hreads : ∀ w ∈ ws, Reads item Follows w)
    (hseparator : ∀ rest, Follows (separator :: rest)) (htail : Follows tail)
    (hends : Ends (· == separator) tail) (offset : Nat) (hnone : ws = [] → item ⟨offset, tail⟩ = none) :
    separated item separator trailing ⟨offset, joined separator ws ++ tail⟩ =
      (located separator offset ws, ⟨offset + byteSize (joined separator ws), tail⟩) := by
  cases ws with
  | nil =>
    rw [joined, List.map_nil, List.intercalate_nil, List.nil_append, separated, hnone rfl]
    rfl
  | cons w ws =>
    obtain ⟨hw, hws⟩ := List.forall_mem_cons.mp hreads
    have hitem := hw offset (continued separator ws ++ tail) (follows_continued hseparator htail)
    have hlength : ws.length ≤ (continued separator ws ++ tail).length := by
      rw [List.length_append]
      exact Nat.le_add_right_of_le (length_le_continued separator ws)
    rw [joined_cons, List.append_assoc, separated]
    simp only [hitem, moreItems_continued hws hseparator htail hends hlength]
    simp only [located, byteSize_append, Nat.add_assoc]

/-- What holds of every item at its place in a text holds of all located items. -/
theorem forall_mem_located {P : α → Prop} {whole before behind : List Char}
    (hws : ∀ w ∈ ws, ∀ before behind, whole = before ++ w.chars ++ behind → P (w.value (byteSize before)))
    (hwhole : whole = before ++ joined separator ws ++ behind) :
    ∀ found ∈ located separator (byteSize before) ws, P found := by
  induction ws generalizing before with
  | nil => simp [located]
  | cons w ws ih =>
    obtain ⟨hw, hmore⟩ := List.forall_mem_cons.mp hws
    rw [joined_cons] at hwhole
    refine List.forall_mem_cons.mpr ⟨hw before (continued separator ws ++ behind) (by simp [hwhole]), ?_⟩
    cases ws with
    | nil => simp [located]
    | cons next ws =>
      have hstart : byteSize before + byteSize w.chars + separator.utf8Size =
          byteSize (before ++ w.chars ++ [separator]) := by
        simp [Nat.add_assoc]
      rw [hstart]
      refine ih hmore ?_
      rw [joined_cons, hwhole]
      simp [continued]

/-- What succeeds for every item at any place succeeds for all located items. -/
theorem mapM_located (separator : Char) {ε β ι : Type} {f : α → Except ε β} {written : ι → Written α}
    {R : ι → β → Prop} {is : List ι}
    (h : ∀ i ∈ is, ∀ start, ∃ b, f ((written i).value start) = .ok b ∧ R i b) (start : Nat) :
    ∃ bs, (located separator start (is.map written)).mapM f = .ok bs ∧ List.Forall₂ R is bs := by
  induction is generalizing start with
  | nil => exact ⟨[], rfl, .nil⟩
  | cons i is ih =>
    obtain ⟨hi, his⟩ := List.forall_mem_cons.mp h
    obtain ⟨b, hb, hib⟩ := hi start
    obtain ⟨bs, hbs, hall⟩ := ih his (start + byteSize (written i).chars + separator.utf8Size)
    refine ⟨b :: bs, ?_, .cons hib hall⟩
    rw [List.map_cons, located, List.mapM_cons, hb, hbs]
    rfl

end Separated

end Cursor

end ReactiveTemplate.Text
