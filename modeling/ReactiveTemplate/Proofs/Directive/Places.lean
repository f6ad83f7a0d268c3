import Mathlib
import ReactiveTemplate.Directive.Iteration
import ReactiveTemplate.Directive.Mapping
import ReactiveTemplate.Proofs.Directive.Actions
import ReactiveTemplate.Proofs.Template.Interpolations
import ReactiveTemplate.Proofs.Text.Places

/-!
# Where the expressions of directives lie

The readers of directives walk along a text: a cursor in the text is moved to a cursor in the text, and what is cut
out on the way lies where its span says. So every expression that is read off a mapping, a header, a list of
actions or a text lies in it.
-/

namespace ReactiveTemplate

open Text

namespace Text.Cursor

variable {α β : Type} {whole : List Char} {c c' : Cursor}

/-- The cursor has the end of a text before it, and counts the bytes of the beginning. -/
def In (whole : List Char) (c : Cursor) : Prop :=
  ∃ before, whole = before ++ c.rest ∧ c.offset = byteSize before

/-- A text begins with a cursor in it. -/
theorem in_start (text : String) : (start text).In text.toList :=
  ⟨[], rfl, rfl⟩

/-- A cursor in a text is moved to a cursor in the text. -/
theorem In.advance (h : c.In whole) (n : Nat) : (c.advance n).In whole := by
  obtain ⟨before, rfl, hoffset⟩ := h
  refine ⟨before ++ c.rest.take n, ?_, ?_⟩
  · rw [Cursor.advance, List.append_assoc, List.take_append_drop]
  · rw [Cursor.advance, hoffset, byteSize_append]

/-- So it is when it skips characters. -/
theorem In.skip (h : c.In whole) (p : Char → Bool) : (c.skip p).In whole :=
  h.advance _

/-- So it is when it skips blanks. -/
theorem In.skipBlank (h : c.In whole) : c.skipBlank.In whole :=
  h.skip isBlank

/-- So it is when it passes a character. -/
theorem In.past? {d : Char} (h : c.In whole) (hpast : c.past? d = some c') : c'.In whole := by
  rw [Cursor.past?] at hpast
  split at hpast
  · split at hpast
    · cases hpast
      exact h.advance 1
    · cases hpast
  · cases hpast

/-- So it is when it passes a run. -/
theorem In.run? {p : Char → Bool} {taken : List Char} (h : c.In whole) (hrun : c.run? p = some (taken, c')) :
    c'.In whole := by
  rw [Cursor.run?] at hrun
  split at hrun
  · cases hrun
  · cases hrun
    exact h.skip p

/-- What a reader finds at a cursor in a text is of some kind, and it leaves a cursor in the text. -/
def Finds (whole : List Char) (P : α → Prop) (reader : Cursor → Option (α × Cursor)) : Prop :=
  ∀ c a c', c.In whole → reader c = some (a, c') → P a ∧ c'.In whole

/-- Items that each follow a separator are found as such. -/
theorem Finds.moreItems {P : α → Prop} {item : Cursor → Option (α × Cursor)} (h : Finds whole P item)
    (separator : Char) (trailing : Bool) (fuel : Nat) (hc : c.In whole) :
    (∀ a ∈ (moreItems item separator trailing fuel c).1, P a) ∧
      (moreItems item separator trailing fuel c).2.In whole := by
  induction fuel generalizing c with
  | zero => exact ⟨List.forall_mem_nil _, hc⟩
  | succ fuel ih =>
    rw [Cursor.moreItems]
    split
    · exact ⟨List.forall_mem_nil _, hc⟩
    · next next hnext =>
      have hin := hc.past? hnext
      split
      · cases trailing
        · exact ⟨List.forall_mem_nil _, hc⟩
        · exact ⟨List.forall_mem_nil _, hin⟩
      · next a behind hitem =>
        obtain ⟨ha, hbehind⟩ := h next a behind hin hitem
        obtain ⟨hmore, hlast⟩ := ih hbehind
        exact ⟨List.forall_mem_cons.mpr ⟨ha, hmore⟩, hlast⟩

/-- Items with separators between them are found as such. -/
theorem Finds.separated {P : α → Prop} {item : Cursor → Option (α × Cursor)} (h : Finds whole P item)
    (separator : Char) (trailing : Bool) (hc : c.In whole) :
    (∀ a ∈ (separated item separator trailing c).1, P a) ∧ (separated item separator trailing c).2.In whole := by
  rw [Cursor.separated]
  split
  · exact ⟨List.forall_mem_nil _, hc⟩
  · next a behind hitem =>
    obtain ⟨ha, hbehind⟩ := h c a behind hc hitem
    obtain ⟨hmore, hlast⟩ := h.moreItems separator trailing behind.rest.length hbehind
    exact ⟨List.forall_mem_cons.mpr ⟨ha, hmore⟩, hlast⟩

end Text.Cursor

namespace Directive

open Cursor

variable {whole : String}

/-- What is trimmed at a cursor lies in the text. -/
theorem Fragment.liesIn_of_in {c : Cursor} {taken rest : List Char} (h : c.In whole.toList)
    (hrest : c.rest = taken ++ rest) : (ofChars c.offset taken).LiesIn whole := by
  obtain ⟨before, hwhole, hoffset⟩ := h
  rw [hrest, ← List.append_assoc] at hwhole
  rw [hoffset]
  exact liesIn_ofChars hwhole

/-- An expression is cut out where it lies. -/
theorem Fragment.finds_cut? (stop : Char → Bool) : Finds whole.toList (LiesIn whole) (cut? stop) := by
  intro c f c' hc h
  rw [cut?] at h
  split at h
  · cases h
  · cases h
    exact ⟨liesIn_of_in hc (List.take_append_drop _ _).symm, hc.advance _⟩

/-- A name leaves the cursor in the text. -/
theorem finds_name? : Finds whole.toList (fun _ => True) name? := by
  intro c name c' hc h
  obtain ⟨⟨taken, behind⟩, hrun, heq⟩ := Option.map_eq_some_iff.mp h
  cases heq
  exact ⟨trivial, hc.run? hrun⟩

/-! ### Mappings -/

namespace Mapping

/-- A quoted key leaves the cursor in the text. -/
theorem finds_quoted? : Finds whole.toList (fun _ => True) quoted? := by
  intro c key c' hc h
  rw [quoted?] at h
  split at h
  · cases h
  · split at h
    · obtain ⟨n, _, heq⟩ := Option.map_eq_some_iff.mp h
      cases heq
      exact ⟨trivial, hc.advance _⟩
    · cases h

/-- A key leaves the cursor in the text. -/
theorem finds_key? : Finds whole.toList (fun _ => True) key? := by
  intro c key c' hc h
  rcases Option.or_eq_some_iff.mp h with h | ⟨_, h⟩
  · exact finds_quoted? c key c' hc h
  · obtain ⟨⟨taken, behind⟩, hrun, heq⟩ := Option.map_eq_some_iff.mp h
    cases heq
    exact ⟨trivial, hc.run? hrun⟩

/-- The expression of an entry lies in the text. -/
theorem finds_entry? : Finds whole.toList (fun entry => entry.2.LiesIn whole) entry? := by
  intro c entry c' hc h
  obtain ⟨⟨key, afterKey⟩, hkey, h⟩ := Option.bind_eq_some_iff.mp h
  obtain ⟨afterColon, hcolon, h⟩ := Option.bind_eq_some_iff.mp h
  obtain ⟨⟨value, behind⟩, hvalue, heq⟩ := Option.bind_eq_some_iff.mp h
  cases heq
  have hafter := ((finds_key? _ _ _ hc.skipBlank hkey).2.skipBlank).past? hcolon
  exact Fragment.finds_cut? _ _ _ _ hafter hvalue

/-- The expressions of a mapping lie in it. -/
theorem liesIn_of_entries? {entries : List (String × Fragment)} (h : entries? whole = some entries) :
    ∀ entry ∈ entries, entry.2.LiesIn whole := by
  obtain ⟨c, hopen, h⟩ := Option.bind_eq_some_iff.mp h
  obtain ⟨last, _, h⟩ := Option.bind_eq_some_iff.mp h
  dsimp only at h
  split at h
  · cases h
    exact (Finds.separated finds_entry? ',' true ((in_start whole).skipBlank.past? hopen)).1
  · cases h

end Mapping

/-! ### Headers of iterations -/

namespace IterationHeader

/-- Names leave the cursor in the text. -/
theorem finds_names? : Finds whole.toList (fun _ => True) names? := by
  intro c names c' hc h
  obtain ⟨⟨item, behind⟩, hitem, h⟩ := Option.bind_eq_some_iff.mp h
  have hbehind := (finds_name? _ _ _ hc hitem).2
  dsimp only at h
  split at h
  · next index last hsecond =>
    cases h
    obtain ⟨next, hcomma, hindex⟩ := Option.bind_eq_some_iff.mp hsecond
    exact finds_name? _ _ _ (hbehind.skipBlank.past? hcomma).skipBlank hindex |>.imp_left fun _ => trivial
  · cases h
    exact ⟨trivial, hbehind⟩

/-- Names in parentheses leave the cursor in the text. -/
theorem finds_grouped? : Finds whole.toList (fun _ => True) grouped? := by
  intro c names c' hc h
  obtain ⟨inside, hopen, h⟩ := Option.bind_eq_some_iff.mp h
  obtain ⟨⟨found, behind⟩, hnames, h⟩ := Option.bind_eq_some_iff.mp h
  obtain ⟨last, hclose, heq⟩ := Option.bind_eq_some_iff.mp h
  cases heq
  have hbehind := (finds_names? _ _ _ (hc.past? hopen).skipBlank hnames).2
  exact ⟨trivial, hbehind.skipBlank.past? hclose⟩

/-- The source of an iteration lies in its header. -/
theorem liesIn_of_ofText? {header : IterationHeader} (h : ofText? whole = some header) :
    header.source.LiesIn whole := by
  obtain ⟨⟨⟨item, index⟩, behind⟩, hnames, h⟩ := Option.bind_eq_some_iff.mp h
  obtain ⟨afterI, hi, h⟩ := Option.bind_eq_some_iff.mp h
  obtain ⟨afterN, hn, h⟩ := Option.bind_eq_some_iff.mp h
  obtain ⟨⟨blanks, last⟩, hblanks, h⟩ := Option.bind_eq_some_iff.mp h
  have hstart := (in_start whole).skipBlank
  have hbehind : behind.In whole.toList := by
    rcases Option.or_eq_some_iff.mp hnames with hnames | ⟨_, hnames⟩
    · exact (finds_grouped? _ _ _ hstart hnames).2
    · exact (finds_names? _ _ _ hstart hnames).2
  have hlast := ((hbehind.skipBlank.past? hi).past? hn).run? hblanks
  dsimp only at h
  split at h
  · cases h
  · cases h
    exact Fragment.liesIn_of_in hlast (List.append_nil _).symm

end IterationHeader

/-! ### Actions -/

namespace ActionList

/-- The expression of an argument lies in the text. -/
theorem finds_argument? :
    Finds whole.toList (fun argument => ∀ f, argument = .given f → f.LiesIn whole) argument? := by
  intro c argument c' hc h
  obtain ⟨⟨f, behind⟩, hcut, heq⟩ := Option.bind_eq_some_iff.mp h
  cases heq
  obtain ⟨hf, hbehind⟩ := Fragment.finds_cut? _ _ _ _ hc hcut
  refine ⟨fun g hg => ?_, hbehind⟩
  rw [ofFragment] at hg
  split at hg
  · cases hg
  · cases hg
    exact hf

/-- The expressions of arguments lie in the text. -/
theorem finds_arguments? :
    Finds whole.toList (fun arguments => ∀ f, .given f ∈ arguments → f.LiesIn whole) arguments? := by
  intro c arguments c' hc h
  obtain ⟨inside, hopen, h⟩ := Option.bind_eq_some_iff.mp h
  obtain ⟨last, hclose, heq⟩ := Option.bind_eq_some_iff.mp h
  cases heq
  obtain ⟨hall, hbehind⟩ := finds_argument?.separated ',' false (hc.past? hopen)
  exact ⟨fun f hf => hall _ hf f rfl, hbehind.skipBlank.past? hclose⟩

/-- A name with blanks around it leaves the cursor in the text. -/
theorem finds_paddedName? : Finds whole.toList (fun _ => True) paddedName? := by
  intro c name c' hc h
  obtain ⟨⟨found, behind⟩, hname, heq⟩ := Option.bind_eq_some_iff.mp h
  cases heq
  exact ⟨trivial, (finds_name? _ _ _ hc.skipBlank hname).2.skipBlank⟩

/-- The expression of an assignment lies in the text. -/
theorem finds_assign? : Finds whole.toList (LiesIn whole) assign? := by
  intro c action c' hc h
  obtain ⟨⟨target, afterName⟩, hname, h⟩ := Option.bind_eq_some_iff.mp h
  obtain ⟨behind, hequals, h⟩ := Option.bind_eq_some_iff.mp h
  have hbehind := (finds_paddedName? _ _ _ hc hname).2.past? hequals
  split at h
  · cases h
  · obtain ⟨⟨value, last⟩, hvalue, heq⟩ := Option.bind_eq_some_iff.mp h
    cases heq
    exact Fragment.finds_cut? _ _ _ _ hbehind hvalue

/-- The expressions of a call lie in the text. -/
theorem finds_invoke? : Finds whole.toList (LiesIn whole) invoke? := by
  intro c action c' hc h
  obtain ⟨⟨method, afterName⟩, hname, h⟩ := Option.bind_eq_some_iff.mp h
  have hafter := (finds_paddedName? _ _ _ hc hname).2
  dsimp only at h
  cases harguments : arguments? afterName with
  | none =>
    rw [harguments] at h
    cases h
    exact ⟨fun f hf => absurd hf List.not_mem_nil, hafter.skipBlank⟩
  | some found =>
    rw [harguments] at h
    cases h
    obtain ⟨hall, hbehind⟩ := finds_arguments? _ _ _ hafter harguments
    exact ⟨hall, hbehind.skipBlank⟩

/-- The expressions of an item lie in the text. -/
theorem finds_item :
    Finds whole.toList (fun found => ∀ action, found = some action → LiesIn whole action) fun c => some (item c) := by
  intro c found c' hc h
  have hitem : item c = (found, c') := Option.some.inj h
  rw [item] at hitem
  split at hitem
  · next action behind haction =>
    cases hitem
    have hfound : LiesIn whole action ∧ behind.In whole.toList := by
      rcases Option.or_eq_some_iff.mp haction with haction | ⟨_, haction⟩
      · exact finds_assign? _ _ _ hc.skipBlank haction
      · exact finds_invoke? _ _ _ hc.skipBlank haction
    refine ⟨fun other hother => ?_, hfound.2.skipBlank⟩
    cases hother
    exact hfound.1
  · cases hitem
    refine ⟨fun other hother => ?_, hc.skipBlank⟩
    cases hother

/-- The expressions of a list of actions lie in it. -/
theorem liesIn_of_ofText? {actions : List (Action Fragment Fragment)} (h : ofText? whole = some actions) :
    ∀ action ∈ actions, LiesIn whole action := by
  rw [ofText?] at h
  dsimp only at h
  split at h
  · cases h
    intro action haction
    obtain ⟨found, hfound, heq⟩ := List.mem_filterMap.mp haction
    exact (finds_item.separated ';' false (in_start whole)).1 found hfound action heq
  · cases h

end ActionList

/-! ### Interpolations -/

/-- The expressions of a text lie in it. -/
theorem liesIn_of_cut {front cs : List Char} {parts : List (Interpolated Fragment)}
    (h : Interpolated.Cut (byteSize front) cs parts) :
    ∀ f, .expression f ∈ parts → f.LiesIn (String.ofList (front ++ cs)) := by
  generalize hstart : byteSize front = start at h
  induction h generalizing front with
  | rest =>
    intro f hf
    obtain ⟨_, heq⟩ := Interpolated.mem_literals.mp hf
    cases heq
  | @pair start before inner behind parts _ _ _ ih =>
    intro f hf
    rcases List.mem_append.mp hf with hf | hf
    · obtain ⟨_, heq⟩ := Interpolated.mem_literals.mp hf
      cases heq
    · rcases List.mem_cons.mp hf with heq | hf
      · cases heq
        refine ⟨front ++ before ++ Interpolated.opening, Interpolated.closing ++ behind, ?_, ?_⟩
        · simp
        · simp [hstart, Nat.add_assoc]
      · have hmore := @ih (front ++ before ++ Interpolated.opening ++ inner ++ Interpolated.closing)
          (by simp [hstart, Nat.add_assoc]) f hf
        simpa using hmore

end Directive

end ReactiveTemplate
