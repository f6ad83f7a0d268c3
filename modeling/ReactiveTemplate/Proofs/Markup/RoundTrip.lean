import ReactiveTemplate.Proofs.Document.Reachable
import ReactiveTemplate.Proofs.Markup.Readers

/-!
# Reading a tree that was written

`Subtree.markup` is what a tree looks like in markup: empty texts are not there, and texts next to each
other are one text. Reading the markup of a tree gives just that, whatever texts and attribute values
the tree holds.
-/

namespace ReactiveTemplate

variable {L : Type}

namespace Element

/-- An attribute with its value; the classes and styles are left out if they are empty. -/
def shownAttribute? (e : Element) (name : String) : Option (String × String) :=
  let value := (e.attribute? name).getD ""
  if value = "" ∧ (name = "class" ∨ name = "style") then none else some (name, value)

/-- The attributes of an element with their values, in order. -/
def shownAttributes (e : Element) : List (String × String) :=
  e.attributes.names.filterMap e.shownAttribute?

end Element

/-- Pieces of markup without empty texts, and with texts next to each other joined. -/
def Markup.joined : List Markup → List Markup
  | [] => []
  | .element tag attributes children :: rest => .element tag attributes children :: joined rest
  | .text content :: rest =>
    if content = "" then joined rest
    else
      match joined rest with
      | .text next :: more => .text (content ++ next) :: more
      | more => .text content :: more

namespace Subtree

mutual

/-- A tree as markup shows it. -/
def markup : Subtree → Markup
  | text _ content => .text content
  | element _ e _ children => .element e.tag e.shownAttributes (Markup.joined (markupList children))

/-- Trees as markup shows them, texts not yet joined. -/
def markupList : List Subtree → List Markup
  | [] => []
  | t :: ts => markup t :: markupList ts

end

mutual

/-- All tags and attribute names below are read as they are written, and void elements are empty. -/
def Plain : Subtree → Prop
  | text _ _ => True
  | element _ e _ children =>
    Markup.PlainTag e.tag ∧ (∀ name ∈ e.attributes.names, Markup.PlainName name) ∧
      (Markup.isVoid e.tag → children = []) ∧ PlainAll children

/-- Plain trees. -/
def PlainAll : List Subtree → Prop
  | [] => True
  | t :: ts => Plain t ∧ PlainAll ts

end

/-- Trees are plain if each of them is. -/
theorem plainAll_iff {ts : List Subtree} : PlainAll ts ↔ ∀ t ∈ ts, t.Plain := by
  induction ts with
  | nil => simp [PlainAll]
  | cons t ts ih => simp [PlainAll, ih]

end Subtree

namespace Markup

/-- An empty text in front is not there. -/
theorem joined_empty (rest : List Markup) : joined (.text "" :: rest) = joined rest := by
  rw [joined, if_pos rfl]

/-- Two texts are joined like one. -/
theorem joined_text_text (a b : String) (rest : List Markup) :
    joined (.text a :: .text b :: rest) = joined (.text (a ++ b) :: rest) := by
  by_cases ha : a = ""
  · rw [ha, joined_empty, String.empty_append]
  · by_cases hb : b = ""
    · have hskip : joined (.text a :: .text "" :: rest) = joined (.text a :: rest) := by
        rw [joined, joined_empty, joined]
      rw [hb, hskip, String.append_empty]
    · have hab : a ++ b ≠ "" := fun h => ha (String.append_eq_empty_iff.mp h).1
      rw [joined, if_neg ha, joined, if_neg hb, joined, if_neg hab]
      cases joined rest with
      | nil => rfl
      | cons first more =>
        cases first with
        | element tag attributes children => rfl
        | text next => simp only [String.append_assoc]

end Markup

namespace Element

/-- The characters of an attribute. -/
theorem attributeHtml_toList (e : Element) (name : String) :
    (e.attributeHtml name).toList =
      Markup.attributesChars ((e.shownAttribute? name).toList) := by
  rw [attributeHtml, shownAttribute?]
  generalize (e.attribute? name).getD "" = value
  by_cases hvalue : value = ""
  · by_cases hname : name = "class" ∨ name = "style"
    · simp [hvalue, hname, Markup.attributesChars]
    · simp [hvalue, hname, Markup.attributesChars, Markup.attributeChars]
  · have hempty : value.isEmpty = false := by simpa using hvalue
    simp [hvalue, hempty, Markup.attributesChars, Markup.attributeChars]

/-- The characters of an opening tag. -/
theorem openingHtml_toList (e : Element) :
    e.openingHtml.toList = Markup.openingChars e.tag e.shownAttributes := by
  have hattributes (names : List String) : (String.join (names.map e.attributeHtml)).toList =
      Markup.attributesChars (names.filterMap e.shownAttribute?) := by
    induction names with
    | nil => rfl
    | cons name rest ih =>
      rw [List.map_cons, String.join_cons, String.toList_append, ih, attributeHtml_toList,
        List.filterMap_cons]
      cases e.shownAttribute? name with
      | none => rfl
      | some pair => simp [Markup.attributesChars]
  rw [openingHtml, String.toList_append, String.toList_append, String.toList_append, hattributes]
  rfl

end Element

namespace Subtree

open Markup

/-- Where the markup of some trees ends: at the end of the text, or at a closing tag. -/
inductive Closes : List Char → Prop where
  | nil : Closes []
  | closing (rest : List Char) : Closes ('<' :: '/' :: rest)

/-- A text stops where trees end. -/
theorem Closes.stops {rest : List Char} (h : Closes rest) : Stops rest := by
  cases h with
  | nil => exact .nil
  | closing rest => exact .closing rest

/-- No piece of markup starts where trees end. -/
theorem nodes_of_closes {rest : List Char} (h : Closes rest) (fuel : Nat) :
    nodes fuel rest = ([], rest) := by
  cases fuel with
  | zero => rfl
  | succ fuel =>
    cases h with
    | nil => rfl
    | closing rest => rfl

/-- A text is read, unless it is empty, and then what follows it. -/
theorem nodes_escapeText (text : String) {rest : List Char} (h : Stops rest) {found : List Markup}
    {last : List Char} (hrest : ∀ fuel, rest.length ≤ fuel → nodes fuel rest = (found, last))
    {fuel : Nat} (hfuel : ((escapeText text).toList ++ rest).length ≤ fuel) :
    nodes fuel ((escapeText text).toList ++ rest) =
      (if text = "" then found else .text text :: found, last) := by
  rw [List.length_append] at hfuel
  by_cases htext : text = ""
  · rw [if_pos htext, htext, escapeText_empty, List.nil_append, hrest fuel (by omega)]
  · have hne : (escapeText text).toList ≠ [] := by
      intro hnil
      exact htext (escapeText_eq_empty (String.toList_eq_nil_iff.mp hnil))
    have hlength := List.length_pos_iff.mpr hne
    cases fuel with
    | zero => omega
    | succ fuel =>
      rw [nodes, node?_escapeText htext (nodes fuel) h, if_neg htext]
      simp only [hrest fuel (by omega)]
      rfl

section Elements

variable {id : NodeId} {e : Element} {events : List String} {children : List Subtree}

/-- The characters of an element that may have content. -/
theorem html_toList (h : isVoid e.tag = false) (rest : List Char) :
    (element id e events children).html.toList ++ rest =
      openingChars e.tag e.shownAttributes ++
        ((htmlList children).toList ++ '<' :: '/' :: (e.tag.toList ++ '>' :: rest)) := by
  rw [html, h, ← e.openingHtml_toList]
  simp

/-- The characters of an element that has no content. -/
theorem html_toList_of_isVoid (h : isVoid e.tag = true) :
    (element id e events children).html.toList = openingChars e.tag e.shownAttributes := by
  rw [html, h, ← e.openingHtml_toList]
  rfl

/-- The first character of an element opens its tag. -/
theorem exists_html_toList_eq_cons : ∃ cs, (element id e events children).html.toList = '<' :: cs := by
  cases hvoid : isVoid e.tag with
  | true => exact ⟨_, html_toList_of_isVoid hvoid⟩
  | false =>
    rw [← List.append_nil (element id e events children).html.toList, html_toList hvoid]
    exact ⟨_, rfl⟩

/-- The shown attributes of a plain element have plain names. -/
theorem Plain.shown (h : (element id e events children).Plain) :
    ∀ pair ∈ e.shownAttributes, PlainName pair.1 := by
  rw [Plain] at h
  obtain ⟨_, hnames, _, _⟩ := h
  intro pair hpair
  obtain ⟨name, hname, hshown⟩ := List.mem_filterMap.mp hpair
  rw [Element.shownAttribute?] at hshown
  split at hshown
  · contradiction
  · cases hshown
    exact hnames name hname

/-- A text stops at an element. -/
theorem Plain.stops (h : (element id e events children).Plain) (rest : List Char) :
    Stops ((element id e events children).html.toList ++ rest) := by
  rw [Plain] at h
  obtain ⟨c, cs, hchars, halpha⟩ := h.1.exists_first
  cases hvoid : isVoid e.tag with
  | true =>
    rw [html_toList_of_isVoid hvoid, openingChars, hchars]
    exact .opening halpha _
  | false =>
    rw [html_toList hvoid, openingChars, hchars]
    exact .opening halpha _

end Elements

mutual

/-- An element is read as it was written. -/
theorem node?_html (t : Subtree) (h : t.Plain) (helement : ∀ id content, t ≠ text id content)
    {fuel : Nat} {rest : List Char} (hfuel : (t.html.toList ++ rest).length ≤ fuel + 1) :
    node? (nodes fuel) (t.html.toList ++ rest) = some (some t.markup, rest) := by
  cases t with
  | text id content => exact absurd rfl (helement id content)
  | element id e events children =>
    have hshown := h.shown
    rw [Plain] at h
    obtain ⟨htag, _, hempty, hchildren⟩ := h
    cases hvoid : isVoid e.tag with
    | true =>
      rw [html_toList_of_isVoid hvoid, node?, no_comment_openingChars htag,
        voidElement?_openingChars htag hshown, if_pos hvoid, markup, hempty hvoid]
      rfl
    | false =>
      rw [html_toList hvoid] at hfuel ⊢
      have hinner := nodes_htmlList children hchildren
        (.closing (e.tag.toList ++ '>' :: rest)) "" fuel (by
          simp only [openingChars, List.length_append, List.length_cons] at hfuel ⊢
          simp only [escapeText_empty, List.length_nil]
          omega)
      rw [escapeText_empty, List.nil_append, joined_empty] at hinner
      rw [node?, no_comment_openingChars htag, voidElement?_openingChars htag hshown,
        if_neg (by simp [hvoid]), element?_openingChars htag hshown hinner, markup]
      rfl

/-- Trees are read as they were written, up to a closing tag. -/
theorem nodes_htmlList (ts : List Subtree) (h : PlainAll ts) {rest : List Char} (hrest : Closes rest)
    (text : String) (fuel : Nat)
    (hfuel : ((escapeText text).toList ++ ((htmlList ts).toList ++ rest)).length ≤ fuel) :
    nodes fuel ((escapeText text).toList ++ ((htmlList ts).toList ++ rest)) =
      (joined (.text text :: markupList ts), rest) := by
  cases ts with
  | nil =>
    have hnone (fuel : Nat) (_ : rest.length ≤ fuel) := nodes_of_closes hrest fuel
    rw [htmlList, String.toList_empty, List.nil_append] at hfuel ⊢
    rw [nodes_escapeText text hrest.stops hnone hfuel, markupList, joined, joined]
  | cons t ts =>
    rw [PlainAll] at h
    obtain ⟨ht, hts⟩ := h
    cases t with
    | text id content =>
      have hchars : (escapeText text).toList ++ ((htmlList (.text id content :: ts)).toList ++ rest) =
          (escapeText (text ++ content)).toList ++ ((htmlList ts).toList ++ rest) := by
        rw [htmlList, html, escapeText_append]
        simp only [String.toList_append, List.append_assoc]
      rw [hchars] at hfuel ⊢
      rw [nodes_htmlList ts hts hrest (text ++ content) fuel hfuel, markupList, markup, joined_text_text]
    | element id e events children =>
      have hchars : (htmlList (.element id e events children :: ts)).toList ++ rest =
          (element id e events children).html.toList ++ ((htmlList ts).toList ++ rest) := by
        rw [htmlList, String.toList_append, List.append_assoc]
      rw [hchars] at hfuel ⊢
      have hread (fuel : Nat)
          (hfuel : ((element id e events children).html.toList ++ ((htmlList ts).toList ++ rest)).length ≤
            fuel) :
          nodes fuel ((element id e events children).html.toList ++ ((htmlList ts).toList ++ rest)) =
            ((element id e events children).markup :: joined (markupList ts), rest) := by
        obtain ⟨cs, hcs⟩ : ∃ cs, (element id e events children).html.toList = '<' :: cs :=
          exists_html_toList_eq_cons
        have hlength := hfuel
        rw [hcs, List.length_append, List.length_cons] at hlength
        cases fuel with
        | zero => omega
        | succ fuel =>
          have hmore := nodes_htmlList ts hts hrest "" fuel (by
            rw [escapeText_empty, List.nil_append]
            omega)
          rw [escapeText_empty, List.nil_append, joined_empty] at hmore
          rw [nodes, node?_html (element id e events children) ht (fun _ _ => Subtree.noConfusion) hfuel]
          simp only [hmore]
          rfl
      rw [nodes_escapeText text (ht.stops _) hread hfuel, markupList, markup, joined, joined]

end

end Subtree

namespace Document

variable {d : Document L}

/-- An element with its children can be written and read: its tag and attribute names are plain, and it
has no children if it is void. -/
structure Readable (e : Element) (children : List NodeId) : Prop where
  tag : Markup.PlainTag e.tag
  names : ∀ name ∈ e.attributes.names, Markup.PlainName name
  empty : Markup.isVoid e.tag → children = []

/-- A tree is plain if all its elements can be written and read. -/
theorem Holds.plain {t : Subtree} (h : d.Holds t)
    (hreadable : ∀ {m node e}, m ∈ t.ids → d.node? m = some node → node.data = .element e →
      Readable e node.children) : t.Plain := by
  induction t using Subtree.induction with
  | text n content => exact trivial
  | element n e events children ih =>
    obtain ⟨⟨parent, listeners, hn, _⟩, hchildren⟩ := h
    have hself : n ∈ (Subtree.element n e events children).ids := Subtree.id_mem_ids _
    have htop := hreadable hself hn rfl
    have hall : Subtree.PlainAll children := by
      refine Subtree.plainAll_iff.mpr fun t ht => ih t ht (holdsAll_iff.mp hchildren t ht) fun hm => ?_
      exact hreadable (List.mem_append_left _ (Subtree.mem_idsList.mpr ⟨t, ht, hm⟩))
    exact ⟨htop.tag, htop.names, fun hvoid => List.map_eq_nil_iff.mp (htop.empty hvoid), hall⟩

/-- Reading the markup of an element gives that element alone, with its tag, its attributes in order and
what is below it, whatever texts and values these hold. -/
theorem Reachable.read_outerHtml (h : d.Reachable) {n : NodeId} {node : Node L} {e : Element}
    (hn : d.node? n = some node) (he : node.data = .element e)
    (hreadable : ∀ {m node e}, d.Within m n → d.node? m = some node → node.data = .element e →
      Readable e node.children) :
    ∃ children : List Subtree, children.map Subtree.id = node.children ∧ d.HoldsAll children ∧
      Markup.read (d.outerHtml n) =
        .ok [.element e.tag e.shownAttributes (Markup.joined (Subtree.markupList children))] := by
  obtain ⟨t, hid, ht⟩ := h.wellFormed.exists_holds hn
  have hlinked := h.wellFormed.linked
  have hplain := ht.plain fun hm => hreadable (hid ▸ (ht.mem_ids_iff hlinked _).mp hm)
  have hwritten : d.outerHtml n = t.html := by rw [outerHtml, ← hid, ht.subtree? hlinked]
  cases t with
  | text m content =>
    obtain ⟨parent, listeners, hm⟩ := ht
    rw [Subtree.id] at hid
    rw [hid, hn] at hm
    cases hm
    contradiction
  | element m e' events children =>
    obtain ⟨⟨parent, listeners, hm, _⟩, hchildren⟩ := ht
    rw [Subtree.id] at hid
    rw [hid, hn] at hm
    cases hm
    cases he
    refine ⟨children, rfl, hchildren, ?_⟩
    have hread := Subtree.nodes_htmlList [.element m e events children] ⟨hplain, trivial⟩ .nil ""
      (d.outerHtml n).toList.length (by
        rw [hwritten]
        simp [Markup.escapeText_empty, Subtree.htmlList])
    rw [Markup.escapeText_empty, List.nil_append, List.append_nil, Markup.joined_empty] at hread
    have hchars : (Subtree.htmlList [.element m e events children]).toList = (d.outerHtml n).toList := by
      rw [hwritten, Subtree.htmlList, Subtree.htmlList, String.append_empty]
    rw [Markup.read]
    rw [hchars] at hread
    simp only [hread]
    rfl

/-- A document with a paragraph beside the body, whose text and title look like markup. -/
def quoting : Document Unit :=
  let d := Operation.apply empty (.createElement "p")
  let d := Operation.apply d (.setAttribute ⟨1, 0⟩ "title" "\"><b>")
  let d := Operation.apply d (.createText "</p> & more")
  Operation.apply d (.append ⟨1, 0⟩ ⟨2, 0⟩)

/-- Text and title of the paragraph are read back as they are. -/
theorem Reachable.read_outerHtml_quoting :
    Markup.read (quoting.outerHtml ⟨1, 0⟩) =
      .ok [.element "p" [("title", "\"><b>")] [.text "</p> & more"]] := by
  have hreached : quoting.Reachable := by
    refine .operation (.operation (.operation (.operation .empty
      (.createElement "p") id) (.setAttribute ⟨1, 0⟩ "title" "\"><b>") id)
      (.createText "</p> & more") id) (.append ⟨1, 0⟩ ⟨2, 0⟩) ?_
    exact Operation.not_entwines_append rfl (by decide)
  have hreadable {m : NodeId} {node : Node Unit} {e : Element} (hm : quoting.node? m = some node)
      (he : node.data = .element e) : Readable e node.children := by
    have hslot : (⟨m.generation, some node⟩ : Slot Unit) ∈
        [⟨0, some ⟨none, [], .element (.ofTag "body"), []⟩⟩,
          ⟨0, some ⟨none, [⟨2, 0⟩], .element ⟨"p", [("title", "\"><b>")], [], []⟩, []⟩⟩,
          ⟨0, some ⟨some ⟨1, 0⟩, [], .text "</p> & more", []⟩⟩] :=
      (Array.mem_of_getElem? (node?_eq_some_iff.mp hm)).val
    simp only [List.mem_cons, List.not_mem_nil, or_false, Slot.mk.injEq, Option.some.injEq] at hslot
    rcases hslot with ⟨_, rfl⟩ | ⟨_, rfl⟩ | ⟨_, rfl⟩
    · cases he
      exact ⟨⟨'b', ['o', 'd', 'y'], rfl, rfl, by simp⟩,
        fun _ hname => absurd hname List.not_mem_nil, by decide⟩
    · cases he
      refine ⟨⟨'p', [], rfl, rfl, by simp⟩, ?_, by decide⟩
      intro name hname
      cases List.mem_singleton.mp hname
      exact ⟨by decide, List.all_eq_true.mp rfl⟩
    · contradiction
  have hnode : quoting.node? ⟨1, 0⟩ =
    some ⟨none, [⟨2, 0⟩], .element ⟨"p", [("title", "\"><b>")], [], []⟩, []⟩ := rfl
  obtain ⟨children, hids, hholds, hread⟩ := hreached.read_outerHtml hnode rfl fun _ => hreadable
  obtain ⟨t, rfl, hid⟩ := List.map_eq_singleton_iff.mp hids
  have ht : t = .text ⟨2, 0⟩ "</p> & more" := hholds.1.unique ⟨some ⟨1, 0⟩, [], rfl⟩ hid
  rw [hread, ht]
  rfl

end Document

end ReactiveTemplate
