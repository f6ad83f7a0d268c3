import Mathlib
import ReactiveTemplate.Markup.Reader
import ReactiveTemplate.Proofs.Markup.Entities
import ReactiveTemplate.Proofs.Text.Runs

/-!
# Readers on markup that was written

Each reader takes what was written and stops where it ends: a tag at a blank or `>`, a quoted value at
its quote, a text at a tag. Attributes are written with a blank before them and a value only if it is
not empty.
-/

namespace ReactiveTemplate.Markup

open ReactiveTemplate.Text

/-- What is written is past its own text. -/
theorem past?_append (expected rest : List Char) : past? expected (expected ++ rest) = some rest := by
  rw [past?, if_pos (by simp), List.drop_left]

/-- Past one character. -/
theorem past?_cons (c : Char) (rest : List Char) : past? [c] (c :: rest) = some rest :=
  past?_append [c] rest

/-- Another character is not past an expected one. -/
theorem past?_of_ne {c d : Char} (h : c ≠ d) (more rest : List Char) :
    past? (c :: more) (d :: rest) = none := by
  rw [past?, if_neg (by simp [h])]

/-- A run of a class is taken whole. -/
theorem run?_append {p : Char → Bool} {taken rest : List Char} (hne : taken ≠ [])
    (htaken : ∀ c ∈ taken, p c = true) (hrest : Ends p rest) :
    run? p (taken ++ rest) = some (taken, rest) := by
  rw [run?, takeWhile_append_of_ends htaken hrest, dropWhile_append_of_ends htaken hrest]
  cases taken with
  | nil => contradiction
  | cons c more => rfl

/-- There is no run of a class that has ended. -/
theorem run?_of_ends {p : Char → Bool} {rest : List Char} (h : Ends p rest) : run? p rest = none := by
  rw [run?, h.takeWhile_eq]

/-- A text is cut at the first occurrence of a character. -/
theorem cutAt?_append {c : Char} {before : List Char} (h : c ∉ before) (rest : List Char) :
    cutAt? [c] (before ++ c :: rest) = some (before, rest) := by
  induction before with
  | nil => simp [cutAt?]
  | cons d more ih =>
    have hd : c ≠ d := fun heq => h (heq ▸ List.mem_cons_self)
    rw [List.cons_append, cutAt?, if_neg (by simp [hd]), ih fun hmem => h (List.mem_cons_of_mem d hmem)]
    rfl

/-! ### Attributes -/

/-- A name that attributes are written and read with. -/
def PlainName (name : String) : Prop :=
  name.toList ≠ [] ∧ ∀ c ∈ name.toList, isAttributeChar c = true

/-- An attribute as it is written. -/
def attributeChars (name value : String) : List Char :=
  if value = "" then ' ' :: name.toList
  else ' ' :: name.toList ++ '=' :: '"' :: (escapeAttribute value).toList ++ ['"']

/-- Attributes as they are written, one after another. -/
def attributesChars : List (String × String) → List Char
  | [] => []
  | (name, value) :: more => attributeChars name value ++ attributesChars more

/-- What follows an attribute: a blank and a name, or the end of the tag. -/
inductive Behind : List Char → Prop where
  | name {c : Char} (h : isAttributeChar c = true) (rest : List Char) : Behind (' ' :: c :: rest)
  | close (rest : List Char) : Behind ('>' :: rest)

/-- Behind an attribute there are more of them or the end of the tag. -/
theorem behind_attributes {pairs : List (String × String)} (h : ∀ pair ∈ pairs, PlainName pair.1)
    (rest : List Char) : Behind (attributesChars pairs ++ '>' :: rest) := by
  cases pairs with
  | nil => exact .close rest
  | cons pair more =>
    obtain ⟨name, value⟩ := pair
    obtain ⟨hne, hchars⟩ := h (name, value) List.mem_cons_self
    obtain ⟨c, cs, hname⟩ := List.exists_cons_of_ne_nil hne
    have hc : isAttributeChar c = true := hchars c (by rw [hname]; exact List.mem_cons_self)
    rw [attributesChars, attributeChars, hname]
    split
    · exact .name hc _
    · exact .name hc _

namespace Behind

variable {rest : List Char}

/-- A name ends there. -/
theorem ends_name (h : Behind rest) : Ends isAttributeChar rest := by
  cases h with
  | name hc more => exact ends_cons rfl _
  | close more => exact ends_cons rfl _

/-- A tag ends there. -/
theorem ends_tag (h : Behind rest) : Ends isTagChar rest := by
  cases h with
  | name hc more => exact ends_cons rfl _
  | close more => exact ends_cons rfl _

/-- No value is assigned there. -/
theorem assignedValue?_eq_none (h : Behind rest) : assignedValue? rest = none := by
  cases h with
  | @name c hc more =>
    have hblank : isBlank c = false := by
      rw [isAttributeChar, Bool.and_eq_true, Bool.not_eq_true'] at hc
      exact hc.1
    have hequals : '=' ≠ c := by
      intro heq
      subst heq
      contradiction
    have htrim : trimStart (' ' :: c :: more) = c :: more := trimStart_of_ends (ends_cons hblank more)
    rw [assignedValue?, htrim, past?_of_ne hequals]
    rfl
  | close more =>
    rw [assignedValue?, trimStart_of_ends (ends_cons rfl more), past?_of_ne (by decide)]
    rfl

end Behind

/-- An attribute is read as it was written. -/
theorem attribute?_attributeChars {name : String} (hname : PlainName name) (value : String)
    {rest : List Char} (h : Behind rest) :
    attribute? (attributeChars name value ++ rest) = some ((name, value), rest) := by
  obtain ⟨hne, hchars⟩ := hname
  obtain ⟨c, cs, hcons⟩ := List.exists_cons_of_ne_nil hne
  have hblank : isBlank c = false := by
    have hc := hchars c (by rw [hcons]; exact List.mem_cons_self)
    rw [isAttributeChar, Bool.and_eq_true, Bool.not_eq_true'] at hc
    exact hc.1
  -- The blank before the name is taken alone, because no name starts with one.
  have hrun (more : List Char) :
      run? isBlank (' ' :: (name.toList ++ more)) = some ([' '], name.toList ++ more) := by
    refine run?_append (List.cons_ne_nil ' ' []) (List.forall_mem_singleton.mpr rfl) ?_
    rw [hcons]
    exact ends_cons hblank _
  rw [attributeChars]
  split
  · next hvalue =>
    rw [attribute?, List.cons_append, hrun, Option.bind_eq_bind, Option.bind_some]
    simp only [run?_append hne hchars h.ends_name, h.assignedValue?_eq_none, Option.bind_some,
      Option.getD_none, String.ofList_toList, decodeEntities_nil, hvalue]
    rfl
  · next hvalue =>
    have hassigned : assignedValue? ('=' :: '"' :: ((escapeAttribute value).toList ++ '"' :: rest)) =
        some ((escapeAttribute value).toList, rest) := by
      rw [assignedValue?, trimStart_of_ends (ends_cons rfl _), past?_cons, Option.bind_eq_bind,
        Option.bind_some, trimStart_of_ends (ends_cons rfl _), attributeValue?, quoted?, past?_cons,
        Option.bind_eq_bind, Option.bind_some, cutAt?_append (quote_not_mem_escapeAttribute value)]
      rfl
    simp only [List.cons_append, List.append_assoc, List.nil_append]
    rw [attribute?, hrun, Option.bind_eq_bind, Option.bind_some]
    simp only [run?_append hne hchars (ends_cons (p := isAttributeChar) (c := '=') rfl _), hassigned,
      Option.bind_some, Option.getD_some, String.ofList_toList, decodeEntities_escapeAttribute]
    rfl

/-- Attributes are read as they were written. -/
theorem attributes_attributesChars {pairs : List (String × String)}
    (h : ∀ pair ∈ pairs, PlainName pair.1) {fuel : Nat} (hfuel : pairs.length ≤ fuel) (rest : List Char) :
    attributes fuel (attributesChars pairs ++ '>' :: rest) = (pairs, '>' :: rest) := by
  induction pairs generalizing fuel with
  | nil =>
    cases fuel with
    | zero => rfl
    | succ fuel =>
      have hnone : attribute? ('>' :: rest) = none := by
        rw [attribute?, run?_of_ends (ends_cons rfl rest)]
        rfl
      rw [attributesChars, List.nil_append, attributes, hnone]
  | cons pair more ih =>
    obtain ⟨name, value⟩ := pair
    have hmore : ∀ pair ∈ more, PlainName pair.1 := fun pair hpair => h pair (List.mem_cons_of_mem _ hpair)
    cases fuel with
    | zero => simp at hfuel
    | succ fuel =>
      rw [List.length_cons, Nat.add_le_add_iff_right] at hfuel
      rw [attributesChars, List.append_assoc, attributes, attribute?_attributeChars
        (h (name, value) List.mem_cons_self) value (behind_attributes hmore rest)]
      simp only [ih hmore hfuel]

/-- Each written attribute takes a character at least. -/
theorem length_le_attributesChars (pairs : List (String × String)) :
    pairs.length ≤ (attributesChars pairs).length := by
  induction pairs with
  | nil => exact Nat.zero_le _
  | cons pair more ih =>
    obtain ⟨name, value⟩ := pair
    have hone : 1 ≤ (attributeChars name value).length := by
      rw [attributeChars]
      split <;> simp
    rw [attributesChars, List.length_append, List.length_cons]
    omega

/-! ### Tags -/

/-- A tag that is read as it is written: a lowercase letter, then lowercase letters, digits or hyphens. -/
def PlainTag (tag : String) : Prop :=
  ∃ c cs, tag.toList = c :: cs ∧ c.isLower = true ∧
    ∀ d ∈ cs, d.isLower = true ∨ d.isDigit = true ∨ d = '-'

/-- A digit is no capital letter. -/
theorem not_isUpper_of_isDigit {c : Char} (h : c.isDigit = true) : ¬ c.isUpper = true := by
  simp only [Char.isDigit, Char.isUpper, Bool.and_eq_true, decide_eq_true_eq, ge_iff_le,
    UInt32.le_iff_toNat_le] at h ⊢
  simp at h ⊢
  omega

namespace PlainTag

variable {tag : String}

/-- The characters of a plain tag are characters of tags, and their own lowercase. -/
theorem chars (h : PlainTag tag) : ∀ c ∈ tag.toList, isTagChar c = true ∧ c.toLower = c := by
  obtain ⟨first, more, htag, hfirst, hmore⟩ := h
  have hlower {c : Char} (hc : c.isLower = true) : isTagChar c = true ∧ c.toLower = c :=
    ⟨by simp [isTagChar, Char.isAlphanum, Char.isAlpha, hc],
      Char.toLower_eq_of_not_isUpper (Char.not_isUpper_of_isLower hc)⟩
  rw [htag]
  intro c hc
  rcases List.mem_cons.mp hc with heq | hc
  · exact heq ▸ hlower hfirst
  · rcases hmore c hc with hc | hc | hc
    · exact hlower hc
    · exact ⟨by simp [isTagChar, Char.isAlphanum, hc],
        Char.toLower_eq_of_not_isUpper (not_isUpper_of_isDigit hc)⟩
    · exact hc ▸ ⟨by decide, by decide⟩

/-- A plain tag is read as it is written. -/
theorem tag? (h : PlainTag tag) {rest : List Char} (hrest : Ends isTagChar rest) :
    tag? (tag.toList ++ rest) = some (tag, rest) := by
  have hne : tag.toList ≠ [] := by
    obtain ⟨first, more, htag, _⟩ := h
    rw [htag]
    exact List.cons_ne_nil _ _
  have hlower : lowercase tag = tag := by
    rw [lowercase, (List.map_inj_left.mpr fun c hc => (h.chars c hc).2 : _ = tag.toList.map id),
      List.map_id, String.ofList_toList]
  rw [Markup.tag?, run?_append hne (fun c hc => (h.chars c hc).1) hrest, Option.map_some]
  simp only [String.ofList_toList, hlower]

/-- The first character of a plain tag is a letter. -/
theorem exists_first (h : PlainTag tag) : ∃ c cs, tag.toList = c :: cs ∧ c.isAlpha = true := by
  obtain ⟨first, more, htag, hfirst, _⟩ := h
  exact ⟨first, more, htag, by simp [Char.isAlpha, hfirst]⟩

end PlainTag

/-- An opening tag as it is written. -/
def openingChars (tag : String) (pairs : List (String × String)) : List Char :=
  '<' :: tag.toList ++ attributesChars pairs ++ ['>']

section Elements

variable {tag : String} {pairs : List (String × String)}

/-- An opening tag is read as it was written. -/
theorem opening?_openingChars (htag : PlainTag tag) (hpairs : ∀ pair ∈ pairs, PlainName pair.1)
    (rest : List Char) :
    opening? (openingChars tag pairs ++ rest) = some ((tag, pairs), '>' :: rest) := by
  have hlength : pairs.length ≤ (attributesChars pairs ++ '>' :: rest).length := by
    rw [List.length_append]
    exact Nat.le_add_right_of_le (length_le_attributesChars pairs)
  simp only [openingChars, List.cons_append, List.append_assoc, List.nil_append]
  simp only [opening?, past?_cons, htag.tag? (behind_attributes hpairs rest).ends_tag,
    attributes_attributesChars hpairs hlength, Option.bind_eq_bind, Option.bind_some,
    trimStart_of_ends (ends_cons (p := isBlank) (c := '>') rfl rest)]
  rfl

/-- An opening tag starts neither a comment nor a declaration. -/
theorem no_comment_openingChars (htag : PlainTag tag) (rest : List Char) :
    (comment? (openingChars tag pairs ++ rest)).or (declaration? (openingChars tag pairs ++ rest)) =
      none := by
  obtain ⟨c, cs, hchars, halpha⟩ := htag.exists_first
  have hc : '!' ≠ c := by
    intro heq
    subst heq
    contradiction
  rw [openingChars, hchars]
  simp [comment?, declaration?, past?, hc]

/-- An element that has no content is read from its opening tag. -/
theorem voidElement?_openingChars (htag : PlainTag tag) (hpairs : ∀ pair ∈ pairs, PlainName pair.1)
    (rest : List Char) :
    voidElement? (openingChars tag pairs ++ rest) =
      if isVoid tag then some (.element tag pairs [], rest) else none := by
  rw [voidElement?, opening?_openingChars htag hpairs, Option.bind_eq_bind, Option.bind_some]
  simp only
  split
  · rw [past?_of_ne (by decide), Option.getD_none, past?_cons]
    rfl
  · rfl

/-- An element is read from its opening tag, its content and its closing tag. -/
theorem element?_openingChars (htag : PlainTag tag) (hpairs : ∀ pair ∈ pairs, PlainName pair.1)
    {children : List Char → List Markup × List Char} {inner rest : List Char} {nodes : List Markup}
    (hinner : children (inner ++ '<' :: '/' :: (tag.toList ++ '>' :: rest)) =
      (nodes, '<' :: '/' :: (tag.toList ++ '>' :: rest))) :
    element? children (openingChars tag pairs ++ (inner ++ '<' :: '/' :: (tag.toList ++ '>' :: rest))) =
      some (.element tag pairs nodes, rest) := by
  have hcontent : content? children tag ('>' :: (inner ++ '<' :: '/' :: (tag.toList ++ '>' :: rest))) =
      some (nodes, rest) := by
    have hclosing : past? ['<', '/'] ('<' :: '/' :: (tag.toList ++ '>' :: rest)) =
      some (tag.toList ++ '>' :: rest) := past?_append ['<', '/'] _
    have hname := htag.tag? (ends_cons (c := '>') rfl rest)
    simp only [content?, past?_cons, hinner, hclosing, hname, Option.bind_eq_bind, Option.bind_some,
      trimStart_of_ends (ends_cons (p := isBlank) (c := '>') rfl rest), if_true]
  have hslash : past? ['/', '>'] ('>' :: (inner ++ '<' :: '/' :: (tag.toList ++ '>' :: rest))) = none :=
    past?_of_ne (by decide) _ _
  simp only [element?, opening?_openingChars htag hpairs, Option.bind_eq_bind, Option.bind_some, hslash,
    hcontent]
  rfl

end Elements

/-! ### Texts -/

/-- Where a text stops: at the end, or at a tag. -/
inductive Stops : List Char → Prop where
  | nil : Stops []
  | closing (rest : List Char) : Stops ('<' :: '/' :: rest)
  | opening {c : Char} (h : c.isAlpha = true) (rest : List Char) : Stops ('<' :: c :: rest)

/-- Characters without `<` are a text up to where it stops. -/
theorem textLength_append {cs rest : List Char} (hcs : '<' ∉ cs) (h : Stops rest) :
    textLength (cs ++ rest) = cs.length := by
  induction cs with
  | nil =>
    cases h with
    | nil => rfl
    | closing rest => rfl
    | @opening c hc rest => rw [List.nil_append, textLength, if_pos (Or.inl hc), List.length_nil]
  | cons c more ih =>
    have hc : c ≠ '<' := fun heq => hcs (heq ▸ List.mem_cons_self)
    rw [List.cons_append, textLength, ih fun hmem => hcs (List.mem_cons_of_mem c hmem), List.length_cons]
    exact hc

/-- A text that is not empty is read as it was before it was escaped. -/
theorem node?_escapeText {text : String} (htext : text ≠ "")
    (children : List Char → List Markup × List Char) {rest : List Char} (h : Stops rest) :
    node? children ((escapeText text).toList ++ rest) = some (some (.text text), rest) := by
  have hlt := lt_not_mem_escapeText text
  have hne : (escapeText text).toList ≠ [] := by
    intro hnil
    exact htext (escapeText_eq_empty (String.toList_eq_nil_iff.mp hnil))
  obtain ⟨c, cs, hchars⟩ := List.exists_cons_of_ne_nil hne
  have hc : '<' ≠ c := by
    intro heq
    rw [hchars, heq] at hlt
    exact hlt List.mem_cons_self
  have hread : text? ((escapeText text).toList ++ rest) = some (.text text, rest) := by
    rw [text?, textLength_append hlt h]
    split
    · next hzero => exact absurd (List.length_eq_zero_iff.mp hzero) hne
    · rw [List.take_left, List.drop_left, String.ofList_toList, decodeEntities_escapeText]
  have hfirst (more : List Char) : past? ('<' :: more) ((escapeText text).toList ++ rest) = none := by
    rw [hchars]
    exact past?_of_ne hc more _
  rw [node?, comment?, declaration?, voidElement?, element?, opening?, hfirst, hfirst, hfirst, hread]
  rfl

end ReactiveTemplate.Markup
