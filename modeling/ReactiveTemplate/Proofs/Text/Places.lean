import Mathlib
import ReactiveTemplate.Text.Span

/-!
# Places between characters

A number of bytes is a place of a text if it is the size of the characters before it. A span from one place to
another one behind it covers the characters between the two, and no others.
-/

namespace ReactiveTemplate.Text

/-- What is not empty takes some bytes. -/
theorem byteSize_pos {cs : List Char} (h : cs ≠ []) : 0 < byteSize cs := by
  obtain ⟨c, rest, rfl⟩ := List.exists_cons_of_ne_nil h
  exact Nat.add_pos_left c.utf8Size_pos _

/-- Only nothing takes no bytes. -/
theorem eq_nil_of_byteSize {cs : List Char} (h : byteSize cs = 0) : cs = [] := by
  by_contra hne
  exact absurd h (byteSize_pos hne).ne'

/-- Of two beginnings of a text, the one that takes fewer bytes begins the other. -/
theorem exists_append_of_byteSize_le {cs ds rest rest' : List Char} (h : cs ++ rest = ds ++ rest')
    (hle : byteSize cs ≤ byteSize ds) : ∃ inner, ds = cs ++ inner ∧ rest = inner ++ rest' := by
  rcases List.append_eq_append_iff.mp h with ⟨inner, rfl, rfl⟩ | ⟨inner, rfl, rfl⟩
  · exact ⟨inner, rfl, rfl⟩
  · have hnone : byteSize inner = 0 := by
      rw [byteSize_append] at hle
      omega
    obtain rfl := eq_nil_of_byteSize hnone
    exact ⟨[], by rw [List.append_nil, List.append_nil], rfl⟩

/-- Of two beginnings of a text that take the same bytes, both are the same. -/
theorem append_inj_of_byteSize {cs ds rest rest' : List Char} (h : cs ++ rest = ds ++ rest')
    (hsize : byteSize cs = byteSize ds) : cs = ds ∧ rest = rest' := by
  obtain ⟨inner, rfl, rfl⟩ := exists_append_of_byteSize_le h hsize.le
  rw [byteSize_append, left_eq_add] at hsize
  obtain rfl := eq_nil_of_byteSize hsize
  exact ⟨(List.append_nil _).symm, rfl⟩

/-- The bytes before some character of a text, or before its end. -/
def IsPlace (whole : List Char) (n : Nat) : Prop :=
  ∃ before behind, whole = before ++ behind ∧ n = byteSize before

/-- A text begins at a place. -/
theorem isPlace_zero (whole : List Char) : IsPlace whole 0 :=
  ⟨[], whole, rfl, rfl⟩

/-- A text ends at a place. -/
theorem isPlace_byteSize (whole : List Char) : IsPlace whole (byteSize whole) :=
  ⟨whole, [], (List.append_nil _).symm, rfl⟩

/-- No place is behind the end. -/
theorem IsPlace.le {whole : List Char} {n : Nat} (h : IsPlace whole n) : n ≤ byteSize whole := by
  obtain ⟨before, behind, rfl, rfl⟩ := h
  rw [byteSize_append]
  exact Nat.le_add_right _ _

namespace Span

variable {span : Span} {whole covered : List Char}

/-- The characters are those of a text between the two ends of a span. -/
def Covers (span : Span) (whole covered : List Char) : Prop :=
  ∃ before behind, whole = before ++ covered ++ behind ∧ span = .covering (byteSize before) covered

/-- The span begins and ends at places of a text, and does not end before it begins. -/
structure Within (span : Span) (whole : List Char) : Prop where
  start : IsPlace whole span.start
  stop : IsPlace whole span.stop
  ordered : span.start ≤ span.stop

/-- A span within a text covers some characters of it. -/
theorem within_iff : span.Within whole ↔ ∃ covered, span.Covers whole covered := by
  constructor
  · rintro ⟨⟨before, rest, hwhole, hstart⟩, ⟨front, behind, hwhole', hstop⟩, hordered⟩
    rw [hstart, hstop] at hordered
    obtain ⟨inner, rfl, rfl⟩ := exists_append_of_byteSize_le (hwhole.symm.trans hwhole') hordered
    refine ⟨inner, before, behind, by rw [hwhole, List.append_assoc], ?_⟩
    rw [covering, ← byteSize_append, ← hstart, ← hstop]
  · rintro ⟨covered, before, behind, rfl, rfl⟩
    refine ⟨⟨before, covered ++ behind, List.append_assoc _ _ _, rfl⟩, ⟨before ++ covered, behind, rfl, ?_⟩,
      Nat.le_add_right _ _⟩
    rw [covering, byteSize_append]

/-- No span covers different characters of one text. -/
theorem Covers.unique {covered' : List Char} (h : span.Covers whole covered) (h' : span.Covers whole covered') :
    covered = covered' := by
  obtain ⟨before, behind, rfl, rfl⟩ := h
  obtain ⟨before', behind', hwhole, hspan⟩ := h'
  obtain ⟨hstart, hstop⟩ := Span.mk.inj hspan
  rw [hstart, Nat.add_left_cancel_iff] at hstop
  rw [List.append_assoc, List.append_assoc] at hwhole
  exact (append_inj_of_byteSize (append_inj_of_byteSize hwhole hstart).2 hstop).1

/-- The span of a whole text covers it. -/
theorem covers_whole (text : String) : (Span.whole text).Covers text.toList text.toList :=
  ⟨[], [], by simp, by simp [Span.whole, covering]⟩

/-- In a larger text a span that is moved to the place of the smaller one covers the same characters. -/
theorem Covers.shift {outer : List Char} {place : Span} (h : span.Covers whole covered)
    (hplace : place.Covers outer whole) : (span.shift place.start).Covers outer covered := by
  obtain ⟨before, behind, rfl, rfl⟩ := h
  obtain ⟨front, back, rfl, rfl⟩ := hplace
  refine ⟨front ++ before, behind ++ back, by simp only [List.append_assoc], ?_⟩
  simp only [Span.shift, covering, byteSize_append]
  congr 1 <;> omega

end Span

end ReactiveTemplate.Text
