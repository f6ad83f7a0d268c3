import Mathlib
import ReactiveTemplate.Template.Interpolation
import ReactiveTemplate.Proofs.Markup.Readers

/-!
# Text in front of markup

Every reader takes at least a character, so reading does not depend on the fuel once it suffices, and plain text
in front of markup is read as a text that ends where the markup begins. It does not end at an element whose tag
begins with a digit or a hyphen: such an element is read where markup begins, but behind text its opening tag is
taken for more of the text.
-/

namespace ReactiveTemplate.Markup

open ReactiveTemplate.Text

/-! ### Readers take characters -/

section Lengths

variable {cs rest : List Char}

/-- An expected text is taken. -/
theorem length_of_past? {expected : List Char} (h : past? expected cs = some rest) :
    expected.length + rest.length = cs.length := by
  rw [past?] at h
  split at h
  · next hprefix =>
    cases h
    have hle := (List.isPrefixOf_iff_prefix.mp hprefix).length_le
    rw [List.length_drop]
    omega
  · cases h

/-- A run takes a character at least. -/
theorem length_of_run? {p : Char → Bool} {taken : List Char} (h : run? p cs = some (taken, rest)) :
    rest.length < cs.length := by
  have hall := congrArg List.length (List.takeWhile_append_dropWhile (p := p) (l := cs))
  rw [List.length_append] at hall
  rw [run?] at h
  split at h
  · cases h
  · next hsome =>
    cases h
    have hpos := List.length_pos_iff.mpr hsome
    omega

/-- Trimming adds nothing. -/
theorem length_trimStart_le (cs : List Char) : (trimStart cs).length ≤ cs.length :=
  (List.dropWhile_sublist isBlank).length_le

/-- A tag takes a character at least. -/
theorem length_of_tag? {tag : String} (h : tag? cs = some (tag, rest)) : rest.length < cs.length := by
  obtain ⟨⟨taken, _⟩, hrun, heq⟩ := Option.map_eq_some_iff.mp h
  cases heq
  exact length_of_run? hrun

/-- A quoted text takes a character at least. -/
theorem length_of_quoted? {quote : Char} {value : List Char} (h : quoted? quote cs = some (value, rest)) :
    rest.length < cs.length := by
  obtain ⟨behind, hpast, hcut⟩ := Option.bind_eq_some_iff.mp h
  have hquote := length_of_past? hpast
  have hbehind := length_behind_of_cutAt? hcut
  simp only [List.length_singleton] at hquote hbehind
  omega

/-- The value of an attribute takes a character at least. -/
theorem length_of_attributeValue? {value : List Char} (h : attributeValue? cs = some (value, rest)) :
    rest.length < cs.length := by
  rw [attributeValue?, Option.or_eq_some_iff, Option.or_eq_some_iff] at h
  rcases h with (h | ⟨_, h⟩) | ⟨_, h⟩
  · exact length_of_quoted? h
  · exact length_of_quoted? h
  · exact length_of_run? h

/-- An assigned value takes a character at least. -/
theorem length_of_assignedValue? {value : List Char} (h : assignedValue? cs = some (value, rest)) :
    rest.length < cs.length := by
  obtain ⟨behind, hpast, hvalue⟩ := Option.bind_eq_some_iff.mp h
  have hequals := length_of_past? hpast
  have hbehind := length_of_attributeValue? hvalue
  have htrim := length_trimStart_le cs
  have htrim' := length_trimStart_le behind
  rw [List.length_singleton] at hequals
  omega

/-- An attribute takes a character at least. -/
theorem length_of_attribute? {pair : String × String} (h : attribute? cs = some (pair, rest)) :
    rest.length < cs.length := by
  obtain ⟨⟨_, behind⟩, hblank, h⟩ := Option.bind_eq_some_iff.mp h
  obtain ⟨⟨name, after⟩, hname, h⟩ := Option.bind_eq_some_iff.mp h
  have hblanks := length_of_run? hblank
  have hnames := length_of_run? hname
  dsimp only at h
  cases hvalue : assignedValue? after with
  | none =>
    rw [hvalue] at h
    cases h
    exact hnames.trans hblanks
  | some found =>
    rw [hvalue] at h
    cases h
    exact ((length_of_assignedValue? hvalue).trans hnames).trans hblanks

/-- Attributes add nothing. -/
theorem length_attributes_le (fuel : Nat) (cs : List Char) : (attributes fuel cs).2.length ≤ cs.length := by
  induction fuel generalizing cs with
  | zero => exact Nat.le_refl _
  | succ fuel ih =>
    rw [attributes]
    split
    · exact Nat.le_refl _
    · next first rest hfirst => exact (ih rest).trans (length_of_attribute? hfirst).le

/-- An opening tag takes a character at least. -/
theorem length_of_opening? {head : String × List (String × String)} (h : opening? cs = some (head, rest)) :
    rest.length < cs.length := by
  obtain ⟨inside, hpast, h⟩ := Option.bind_eq_some_iff.mp h
  obtain ⟨⟨tag, behind⟩, htag, h⟩ := Option.bind_eq_some_iff.mp h
  cases h
  have hbracket := length_of_past? hpast
  have hname := length_of_tag? htag
  have hattributes := length_attributes_le behind.length behind
  have htrim := length_trimStart_le (attributes behind.length behind).2
  rw [List.length_singleton] at hbracket
  omega

/-- What runs from one text to another takes a character at least. -/
theorem length_of_past?_cutAt? {start stop inside : List Char} {found : List Char × List Char} (hne : start ≠ [])
    (hpast : past? start cs = some inside) (hcut : cutAt? stop inside = some found) :
    found.2.length < cs.length := by
  have hstart := length_of_past? hpast
  have hstop := length_behind_of_cutAt? hcut
  have hpos := List.length_pos_iff.mpr hne
  omega

/-- A comment takes a character at least. -/
theorem length_of_comment? (h : comment? cs = some rest) : rest.length < cs.length := by
  obtain ⟨inside, hpast, h⟩ := Option.bind_eq_some_iff.mp h
  obtain ⟨found, hcut, h⟩ := Option.bind_eq_some_iff.mp h
  cases h
  exact length_of_past?_cutAt? (List.cons_ne_nil _ _) hpast hcut

/-- A declaration takes a character at least. -/
theorem length_of_declaration? (h : declaration? cs = some rest) : rest.length < cs.length := by
  obtain ⟨inside, hpast, h⟩ := Option.bind_eq_some_iff.mp h
  obtain ⟨found, hcut, h⟩ := Option.bind_eq_some_iff.mp h
  cases h
  exact length_of_past?_cutAt? (List.cons_ne_nil _ _) hpast hcut

/-- An element without content takes a character at least. -/
theorem length_of_voidElement? {node : Markup} (h : voidElement? cs = some (node, rest)) :
    rest.length < cs.length := by
  obtain ⟨⟨⟨tag, pairs⟩, behind⟩, hopening, h⟩ := Option.bind_eq_some_iff.mp h
  have hhead := length_of_opening? hopening
  dsimp only at h
  split at h
  · obtain ⟨after, hpast, heq⟩ := Option.bind_eq_some_iff.mp h
    cases heq
    have hclose := length_of_past? hpast
    cases hslash : past? ['/'] behind with
    | none =>
      rw [hslash, Option.getD_none] at hclose
      omega
    | some left =>
      rw [hslash, Option.getD_some] at hclose
      have hleft := length_of_past? hslash
      omega
  · cases h

/-- A text takes a character at least. -/
theorem length_of_text? {node : Markup} (h : text? cs = some (node, rest)) : rest.length < cs.length := by
  rw [text?] at h
  split at h
  · cases h
  · next hsome =>
    cases h
    have hne : cs ≠ [] := by
      rintro rfl
      exact hsome rfl
    have hpos := List.length_pos_iff.mpr hne
    have htext : 0 < textLength cs := Nat.pos_of_ne_zero hsome
    rw [List.length_drop]
    omega

variable {children children' : List Char → List Markup × List Char}

/-- The content of an element takes a character at least. -/
theorem length_of_content? {tag : String} {found : List Markup}
    (hchildren : ∀ ds, (children ds).2.length ≤ ds.length) (h : content? children tag cs = some (found, rest)) :
    rest.length < cs.length := by
  obtain ⟨inside, hopen, h⟩ := Option.bind_eq_some_iff.mp h
  obtain ⟨name, hclose, h⟩ := Option.bind_eq_some_iff.mp h
  obtain ⟨⟨closing, after⟩, htag, h⟩ := Option.bind_eq_some_iff.mp h
  obtain ⟨last, hlast, h⟩ := Option.bind_eq_some_iff.mp h
  have h1 := length_of_past? hopen
  have h2 := length_of_past? hclose
  have h3 := length_of_tag? htag
  have h4 := length_of_past? hlast
  have h5 := hchildren inside
  have h6 := length_trimStart_le after
  split at h
  · cases h
    simp only [List.length_cons, List.length_nil] at h1 h2 h4
    omega
  · cases h

/-- An element takes a character at least. -/
theorem length_of_element? {node : Markup} (hchildren : ∀ ds, (children ds).2.length ≤ ds.length)
    (h : element? children cs = some (node, rest)) : rest.length < cs.length := by
  obtain ⟨⟨⟨tag, pairs⟩, behind⟩, hopening, h⟩ := Option.bind_eq_some_iff.mp h
  have hhead := length_of_opening? hopening
  dsimp only at h
  split at h
  · next after hclosed =>
    cases h
    have hslash := length_of_past? hclosed
    omega
  · obtain ⟨⟨found, after⟩, hcontent, heq⟩ := Option.bind_eq_some_iff.mp h
    cases heq
    exact (length_of_content? hchildren hcontent).trans hhead

/-- A piece of markup takes a character at least. -/
theorem length_of_node? {found : Option Markup} (hchildren : ∀ ds, (children ds).2.length ≤ ds.length)
    (h : node? children cs = some (found, rest)) : rest.length < cs.length := by
  rw [node?] at h
  split at h
  · next hcomment =>
    cases h
    rcases Option.or_eq_some_iff.mp hcomment with h | ⟨_, h⟩
    · exact length_of_comment? h
    · exact length_of_declaration? h
  · obtain ⟨⟨node, after⟩, hnode, heq⟩ := Option.map_eq_some_iff.mp h
    cases heq
    rw [Option.or_eq_some_iff, Option.or_eq_some_iff] at hnode
    rcases hnode with (h | ⟨_, h⟩) | ⟨_, h⟩
    · exact length_of_voidElement? h
    · exact length_of_element? hchildren h
    · exact length_of_text? h

/-- Pieces of markup add nothing. -/
theorem length_nodes_le (fuel : Nat) (cs : List Char) : (nodes fuel cs).2.length ≤ cs.length := by
  induction fuel generalizing cs with
  | zero => exact Nat.le_refl _
  | succ fuel ih =>
    rw [nodes]
    split
    · exact Nat.le_refl _
    · next hnode => exact (ih _).trans (length_of_node? ih hnode).le

/-! ### Fuel -/

/-- An element does not depend on how longer texts than its content are read. -/
theorem element?_congr (h : ∀ ds, ds.length < cs.length → children ds = children' ds) :
    element? children cs = element? children' cs := by
  rw [element?, element?]
  refine Option.bind_congr fun head hopening => ?_
  obtain ⟨⟨tag, pairs⟩, behind⟩ := head
  have hhead := length_of_opening? hopening
  dsimp only
  split
  · rfl
  · congr 1
    rw [content?, content?]
    refine Option.bind_congr fun inside hinside => ?_
    have hbracket := length_of_past? hinside
    rw [h inside (by omega)]

/-- Nor does a piece of markup. -/
theorem node?_congr (h : ∀ ds, ds.length < cs.length → children ds = children' ds) :
    node? children cs = node? children' cs := by
  rw [node?, node?, element?_congr h]

/-- Fuel that suffices is as good as any more. -/
theorem nodes_of_le {fuel fuel' : Nat} (h : cs.length ≤ fuel) (h' : cs.length ≤ fuel') :
    nodes fuel cs = nodes fuel' cs := by
  have hnil (children : List Char → List Markup × List Char) : node? children [] = none := rfl
  induction fuel generalizing cs fuel' with
  | zero =>
    obtain rfl : cs = [] := List.length_eq_zero_iff.mp (Nat.le_zero.mp h)
    cases fuel' with
    | zero => rfl
    | succ fuel' => rw [nodes, nodes, hnil]
  | succ fuel ih =>
    cases fuel' with
    | zero =>
      obtain rfl : cs = [] := List.length_eq_zero_iff.mp (Nat.le_zero.mp h')
      rw [nodes, nodes, hnil]
    | succ fuel' =>
      have hsame : node? (nodes fuel) cs = node? (nodes fuel') cs :=
        node?_congr fun ds hds => ih (by omega) (by omega)
      rw [nodes, nodes, hsame]
      split
      · rfl
      · next found rest hnode =>
        have hshorter := length_of_node? (length_nodes_le fuel') hnode
        have hbehind : nodes fuel rest = nodes fuel' rest := ih (by omega) (by omega)
        rw [hbehind]

end Lengths

/-! ### Plain text in front -/

section Texts

variable {plain cs : List Char}

/-- Characters without `<` are text, whatever is behind them. -/
theorem textLength_plain_append (h : '<' ∉ plain) (cs : List Char) :
    textLength (plain ++ cs) = plain.length + textLength cs := by
  induction plain with
  | nil => rw [List.nil_append, List.length_nil, Nat.zero_add]
  | cons c plain ih =>
    obtain ⟨hc, hplain⟩ := not_or.mp (List.mem_cons.not.mp h)
    rw [List.cons_append, textLength, ih hplain, List.length_cons]
    · omega
    · exact fun heq => hc heq.symm

/-- Characters without `&` are read as they stand. -/
theorem decodeChars_plain_append (h : '&' ∉ plain) (cs : List Char) :
    decodeChars (plain ++ cs) = plain ++ decodeChars cs := by
  induction plain with
  | nil => rfl
  | cons c plain ih =>
    obtain ⟨hc, hplain⟩ := not_or.mp (List.mem_cons.not.mp h)
    rw [List.cons_append, decodeChars_cons (Ne.symm hc), ih hplain, List.cons_append]

/-- What does not begin with `<` is a text or nothing. -/
theorem node?_of_ne {c : Char} (hc : c ≠ '<') (children : List Char → List Markup × List Char) (cs : List Char) :
    node? children (c :: cs) = (text? (c :: cs)).map fun (node, rest) => (some node, rest) := by
  have hfirst (more : List Char) : past? ('<' :: more) (c :: cs) = none := past?_of_ne (Ne.symm hc) more cs
  rw [node?, comment?, declaration?, voidElement?, element?, opening?, hfirst, hfirst, hfirst]
  rfl

/-- A text is read, with its entities. -/
theorem text?_of_textLength (h : textLength cs ≠ 0) :
    text? cs = some (.text (String.ofList (decodeChars (cs.take (textLength cs)))), cs.drop (textLength cs)) := by
  rw [text?]
  split
  · contradiction
  · rw [decodeEntities, String.toList_ofList, ← decodeChars]

/-- Plain text in front of a text makes one text of both. -/
theorem node?_plain_append (hne : plain ≠ []) (hlt : '<' ∉ plain) (hamp : '&' ∉ plain)
    (children : List Char → List Markup × List Char) (cs : List Char) :
    node? children (plain ++ cs) = some (some (.text (String.ofList
      (plain ++ decodeChars (cs.take (textLength cs))))), cs.drop (textLength cs)) := by
  obtain ⟨c, more, hcons⟩ := List.exists_cons_of_ne_nil hne
  have hc : c ≠ '<' := fun heq => hlt (heq ▸ hcons ▸ List.mem_cons_self)
  have hlength := textLength_plain_append hlt cs
  have hsome : textLength (plain ++ cs) ≠ 0 := by
    have hpos := List.length_pos_iff.mpr hne
    omega
  have htext : node? children (plain ++ cs) = (text? (plain ++ cs)).map fun (node, rest) => (some node, rest) := by
    rw [hcons]
    exact node?_of_ne hc children _
  rw [htext, text?_of_textLength hsome, hlength, List.take_length_add_append, List.drop_length_add_append,
    decodeChars_plain_append hamp]
  rfl

/-- What is read as an element is one. -/
theorem exists_of_element? {children : List Char → List Markup × List Char} {node : Markup} {rest : List Char}
    (h : element? children cs = some (node, rest)) : ∃ tag pairs inner, node = .element tag pairs inner := by
  obtain ⟨⟨⟨tag, pairs⟩, behind⟩, _, h⟩ := Option.bind_eq_some_iff.mp h
  dsimp only at h
  split at h
  · cases h
    exact ⟨tag, pairs, [], rfl⟩
  · obtain ⟨⟨found, _⟩, _, heq⟩ := Option.bind_eq_some_iff.mp h
    cases heq
    exact ⟨tag, pairs, found, rfl⟩

/-- A digit is no letter. -/
theorem not_isAlpha_of_isDigit {c : Char} (h : c.isDigit = true) : c.isAlpha = false := by
  simp only [Char.isDigit, Char.isAlpha, Char.isUpper, Char.isLower, Bool.and_eq_true, Bool.or_eq_false_iff,
    Bool.and_eq_false_iff, decide_eq_true_eq, decide_eq_false_iff_not, ge_iff_le, UInt32.le_iff_toNat_le] at h ⊢
  simp at h ⊢
  omega

/-- The first character of a tag that is read behind `<`. -/
theorem first_of_opening? {c : Char} {cs behind : List Char} {tag : String} {pairs : List (String × String)}
    (h : opening? ('<' :: c :: cs) = some ((tag, pairs), behind)) :
    isTagChar c = true ∧ tag.toList.head? = some c.toLower := by
  rw [opening?, past?_cons, Option.bind_eq_bind, Option.bind_some] at h
  obtain ⟨⟨name, after⟩, htag, heq⟩ := Option.bind_eq_some_iff.mp h
  cases heq
  obtain ⟨⟨taken, left⟩, hrun, heq⟩ := Option.map_eq_some_iff.mp htag
  cases heq
  cases hc : isTagChar c with
  | false =>
    rw [run?_of_ends (ends_cons hc cs)] at hrun
    cases hrun
  | true =>
    rw [run?, List.takeWhile_cons, hc] at hrun
    cases hrun
    exact ⟨rfl, by simp [lowercase]⟩

/-- Tags that begin with a digit or a hyphen are none of the elements without content. -/
theorem voidElement?_eq_none {c : Char} (hc : c.isDigit = true ∨ c = '-') (cs : List Char) :
    voidElement? ('<' :: c :: cs) = none := by
  have hletter : ∀ tag ∈ voidTags, tag.toList.head?.all Char.isAlpha = true := by decide
  have hother : c.toLower.isAlpha = false := by
    rcases hc with hdigit | rfl
    · rw [Char.toLower_eq_of_not_isUpper (not_isUpper_of_isDigit hdigit)]
      exact not_isAlpha_of_isDigit hdigit
    · rfl
  rw [Option.eq_none_iff_forall_ne_some]
  rintro ⟨node, rest⟩ h
  obtain ⟨⟨⟨tag, pairs⟩, behind⟩, hopening, h⟩ := Option.bind_eq_some_iff.mp h
  dsimp only at h
  split at h
  · next hvoid =>
    have htag := hletter tag (List.contains_iff_mem.mp hvoid)
    rw [(first_of_opening? hopening).2, Option.all_some, hother] at htag
    contradiction
  · cases h

/-- Where a text could begin, there is the text, or an element whose tag begins with a digit or a hyphen. -/
theorem node?_of_textLength (h : textLength cs ≠ 0) (children : List Char → List Markup × List Char) :
    node? children cs = (text? cs).map (fun (node, rest) => (some node, rest)) ∨
      ∃ c more tag pairs inner rest, cs = '<' :: c :: more ∧ (c.isDigit = true ∨ c = '-') ∧
        node? children cs = some (some (.element tag pairs inner), rest) := by
  rcases cs with _ | ⟨first, cs⟩
  · contradiction
  by_cases hfirst : first = '<'
  · subst hfirst
    rcases cs with _ | ⟨c, more⟩
    · contradiction
    have hlook : ¬(c.isAlpha = true ∨ c = '/' ∨ c = '!') := by
      intro hstop
      rw [textLength, if_pos hstop] at h
      contradiction
    obtain ⟨halpha, hother⟩ := not_or.mp hlook
    have hmark : '!' ≠ c := fun heq => (not_or.mp hother).2 heq.symm
    have hcomment : (comment? ('<' :: c :: more)).or (declaration? ('<' :: c :: more)) = none := by
      simp [comment?, declaration?, past?, hmark]
    cases hopening : opening? ('<' :: c :: more) with
    | none =>
      rw [node?, hcomment, voidElement?, element?, hopening]
      exact Or.inl rfl
    | some head =>
      have hclass : c.isDigit = true ∨ c = '-' := by
        have htag := (first_of_opening? hopening).1
        simpa [isTagChar, Char.isAlphanum, halpha] using htag
      rw [node?, hcomment, voidElement?_eq_none hclass]
      cases helement : element? children ('<' :: c :: more) with
      | none => exact Or.inl rfl
      | some found =>
        obtain ⟨node, rest⟩ := found
        obtain ⟨tag, pairs, inner, rfl⟩ := exists_of_element? helement
        exact Or.inr ⟨c, more, tag, pairs, inner, rest, rfl, hclass, rfl⟩
  · exact Or.inl (node?_of_ne hfirst children cs)

end Texts

/-! ### Markup behind plain text -/

/-- Markup with a text in front. The text is joined to the first one if the source starts with text itself. -/
def inFront (plain source : String) : List Markup → List Markup
  | .text first :: more =>
    if textLength source.toList = 0 then .text plain :: .text first :: more else .text (plain ++ first) :: more
  | nodes => .text plain :: nodes

/-- The first piece of the source is an element whose tag begins with a digit or a hyphen. -/
def BeginsUnnamed (source : String) (nodes : List Markup) : Prop :=
  ∃ c rest tag pairs children more, source.toList = '<' :: c :: rest ∧ (c.isDigit = true ∨ c = '-') ∧
    nodes = .element tag pairs children :: more

/-- Such an element could be taken for text. -/
theorem textLength_of_unnamed {c : Char} (hc : c.isDigit = true ∨ c = '-') (rest : List Char) :
    textLength ('<' :: c :: rest) ≠ 0 := by
  have hlook : ¬(c.isAlpha = true ∨ c = '/' ∨ c = '!') := by
    rcases hc with hdigit | rfl
    · rw [not_isAlpha_of_isDigit hdigit]
      rintro (hfalse | rfl | rfl) <;> contradiction
    · decide
  rw [textLength, if_neg hlook]
  exact Nat.succ_ne_zero _

/-- Where no text begins the text in front stands alone. -/
theorem inFront_of_textLength {source : String} (h : textLength source.toList = 0) (plain : String)
    (found : List Markup) : inFront plain source found = .text plain :: found := by
  cases found with
  | nil => rfl
  | cons first more =>
    cases first with
    | element => rfl
    | text => rw [inFront, if_pos h]

/-- A source is read if its pieces take all of it. -/
theorem read_eq_ok_iff {source : String} {found : List Markup} :
    read source = .ok found ↔ nodes source.toList.length source.toList = (found, []) := by
  rw [read]
  split
  · next heq =>
    rw [heq, Except.ok.injEq, Prod.mk.injEq]
    exact ⟨fun h => ⟨h, rfl⟩, And.left⟩
  · next hnot =>
    constructor
    · exact nofun
    · exact fun heq => absurd heq (hnot _)

/-- What is read of plain text and markup behind it: a text, and what is read behind that text. -/
theorem nodes_plain_append {plain : List Char} (hne : plain ≠ []) (hlt : '<' ∉ plain) (hamp : '&' ∉ plain)
    (cs : List Char) :
    nodes (plain ++ cs).length (plain ++ cs) =
      (.text (String.ofList (plain ++ decodeChars (cs.take (textLength cs)))) ::
        (nodes cs.length (cs.drop (textLength cs))).1, (nodes cs.length (cs.drop (textLength cs))).2) := by
  have hlength : (plain ++ cs).length = plain.length - 1 + cs.length + 1 := by
    have hpos := List.length_pos_iff.mpr hne
    rw [List.length_append]
    omega
  have hdrop : (cs.drop (textLength cs)).length ≤ cs.length := (List.drop_sublist _ _).length_le
  rw [hlength, nodes, node?_plain_append hne hlt hamp]
  dsimp only
  rw [nodes_of_le (hdrop.trans (Nat.le_add_left _ _)) hdrop]
  rfl

/-- Plain text in front of markup that is read: the text comes first and the rest is read as before, unless the
markup begins with an element whose tag begins with a digit or a hyphen. -/
theorem read_behind_plain_iff {plain source : String} {found : List Markup} (hne : plain ≠ "")
    (hlt : '<' ∉ plain.toList) (hamp : '&' ∉ plain.toList) (hread : read source = .ok found) :
    read (plain ++ source) = .ok (inFront plain source found) ↔ ¬BeginsUnnamed source found := by
  have hchars : plain.toList ≠ [] := fun hnil => hne (String.toList_eq_nil_iff.mp hnil)
  rw [read_eq_ok_iff] at hread
  rw [read_eq_ok_iff, String.toList_append, nodes_plain_append hchars hlt hamp, Prod.mk.injEq]
  by_cases hlength : textLength source.toList = 0
  · rw [hlength, List.take_zero, List.drop_zero, decodeChars_nil, List.append_nil, String.ofList_toList, hread,
      inFront_of_textLength hlength]
    refine iff_of_true ⟨rfl, rfl⟩ ?_
    rintro ⟨c, rest, _, _, _, _, hsource, hc, _⟩
    exact textLength_of_unnamed hc rest (hsource ▸ hlength)
  -- The source is not empty, so its first piece is read with one unit of fuel.
  · have hpos : source.toList.length ≠ 0 := by
      intro hnil
      rw [List.length_eq_zero_iff.mp hnil] at hlength
      contradiction
    obtain ⟨fuel, hfuel⟩ := Nat.exists_eq_succ_of_ne_zero hpos
    rw [hfuel, nodes] at hread
    rcases node?_of_textLength hlength (nodes fuel) with
      htext | ⟨c, rest, tag, pairs, inner, behind, hsource, hc, hnode⟩
    · rw [htext, text?_of_textLength hlength, Option.map_some] at hread
      dsimp only at hread
      have hshorter : (source.toList.drop (textLength source.toList)).length ≤ fuel := by
        rw [List.length_drop]
        omega
      rw [nodes_of_le (by omega) hshorter]
      obtain ⟨rfl, hnil⟩ := Prod.mk.inj hread
      refine iff_of_true ⟨?_, hnil⟩ ?_
      · rw [Option.toList_some, List.singleton_append, inFront, if_neg hlength, String.ofList_append,
          String.ofList_toList]
      · rintro ⟨_, _, _, _, _, _, _, _, hfound⟩
        cases hfound
    · rw [hnode] at hread
      dsimp only at hread
      obtain ⟨rfl, _⟩ := Prod.mk.inj hread
      refine iff_of_false (fun h => ?_) (not_not_intro ⟨c, rest, tag, pairs, inner, _, hsource, hc, rfl⟩)
      -- The text that is read goes on with the bracket of the tag, so it is longer than the plain text.
      obtain ⟨htext, _⟩ := List.cons.inj h.1
      have hlonger := congrArg String.length (Markup.text.inj htext)
      obtain ⟨n, hn⟩ := Nat.exists_eq_succ_of_ne_zero hlength
      rw [hn, hsource, Nat.succ_eq_add_one, List.take_succ_cons, decodeChars_cons (by decide)] at hlonger
      simp at hlonger

/-- A comparison in front of an element is a text of its own. -/
theorem read_behind_plain_comparison :
    read ("1 > 0 " ++ "<b></b>") = .ok [.text "1 > 0 ", .element "b" [] []] := by
  have hread : read "<b></b>" = .ok [.element "b" [] []] := rfl
  refine (read_behind_plain_iff (by decide) (by decide) (by decide) hread).mpr ?_
  rintro ⟨c, rest, _, _, _, _, hsource, hc, _⟩
  have hb : 'b' = c := (List.cons.inj (List.cons.inj hsource).2).1
  subst hb
  rcases hc with hc | hc <;> contradiction

/-- An element whose tag is a digit is read, and not behind a letter. -/
theorem unnamed_element_behind_letter :
    read "<1></1>" = .ok [.element "1" [] []] ∧ read ("a" ++ "<1></1>") = .error ⟨"a<1></1>"⟩ :=
  ⟨rfl, rfl⟩

end ReactiveTemplate.Markup
