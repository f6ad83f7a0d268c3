import ReactiveTemplate.Markup.Reader

/-!
# Tags of markup

Tags are read in lowercase, so in whatever letter case a text has them, all elements that are read from it have
lowercase tags.
-/

namespace ReactiveTemplate.Markup

/-- A tag is its own lowercase. -/
def IsLowercase (tag : String) : Prop :=
  lowercase tag = tag

/-- Every element of a piece of markup has a lowercase tag. -/
inductive Tagged : Markup → Prop where
  | text (content : String) : Tagged (.text content)
  | element {tag : String} (attributes : List (String × String)) {children : List Markup} (htag : IsLowercase tag)
      (hchildren : ∀ piece ∈ children, Tagged piece) : Tagged (.element tag attributes children)

/-- A lowercase letter is its own lowercase. -/
theorem toLower_toLower (c : Char) : c.toLower.toLower = c.toLower := by
  have hfixed {d : Char} (hd : ¬ (d.val ≥ 'A'.val ∧ d.val ≤ 'Z'.val)) : d.toLower = d := dif_neg hd
  by_cases hc : c.val ≥ 'A'.val ∧ c.val ≤ 'Z'.val
  · refine hfixed fun hupper => ?_
    have hlower : c.toLower.val = c.val + ('a'.val - 'A'.val) := congrArg Char.val (dif_pos hc)
    rw [hlower] at hupper
    simp only [ge_iff_le, UInt32.le_iff_toNat_le, UInt32.toNat_add] at hc hupper
    simp at hc hupper
    omega
  · rw [hfixed hc, hfixed hc]

/-- Tags in lowercase stay as they are. -/
theorem isLowercase_lowercase (tag : String) : IsLowercase (lowercase tag) := by
  rw [IsLowercase, lowercase, lowercase, String.toList_ofList, List.map_map]
  exact congrArg String.ofList (List.map_congr_left fun c _ => toLower_toLower c)

variable {cs rest : List Char} {tag : String}

/-- Tags are read in lowercase. -/
theorem isLowercase_of_tag? (h : tag? cs = some (tag, rest)) : IsLowercase tag := by
  obtain ⟨taken, _, heq⟩ := Option.map_eq_some_iff.mp h
  cases heq
  exact isLowercase_lowercase _

/-- The tags of opening tags are in lowercase. -/
theorem isLowercase_of_opening? {attributes : List (String × String)}
    (h : opening? cs = some ((tag, attributes), rest)) : IsLowercase tag := by
  obtain ⟨_, _, h⟩ := Option.bind_eq_some_iff.mp h
  obtain ⟨⟨read, _⟩, htag, heq⟩ := Option.bind_eq_some_iff.mp h
  cases heq
  exact isLowercase_of_tag? htag

/-- An element without content has a lowercase tag. -/
theorem tagged_of_voidElement? {node : Markup} (h : voidElement? cs = some (node, rest)) : node.Tagged := by
  obtain ⟨⟨⟨tag, attributes⟩, behind⟩, hopening, h⟩ := Option.bind_eq_some_iff.mp h
  dsimp only at h
  split at h
  · obtain ⟨_, _, heq⟩ := Option.bind_eq_some_iff.mp h
    cases heq
    exact .element _ (isLowercase_of_opening? hopening) fun _ hpiece => absurd hpiece List.not_mem_nil
  · cases h

/-- A text has no tags. -/
theorem tagged_of_text? {node : Markup} (h : text? cs = some (node, rest)) : node.Tagged := by
  rw [text?] at h
  split at h
  · cases h
  · cases h
    exact .text _

variable {children : List Char → List Markup × List Char}

/-- An element has a lowercase tag if those inside it do. -/
theorem tagged_of_element? {node : Markup} (hchildren : ∀ ds, ∀ piece ∈ (children ds).1, piece.Tagged)
    (h : element? children cs = some (node, rest)) : node.Tagged := by
  obtain ⟨⟨⟨tag, attributes⟩, behind⟩, hopening, h⟩ := Option.bind_eq_some_iff.mp h
  have htag := isLowercase_of_opening? hopening
  dsimp only at h
  split at h
  · cases h
    exact .element _ htag fun _ hpiece => absurd hpiece List.not_mem_nil
  · obtain ⟨⟨found, _⟩, hcontent, heq⟩ := Option.bind_eq_some_iff.mp h
    cases heq
    refine .element _ htag ?_
    obtain ⟨inside, _, h⟩ := Option.bind_eq_some_iff.mp hcontent
    obtain ⟨_, _, h⟩ := Option.bind_eq_some_iff.mp h
    obtain ⟨_, _, h⟩ := Option.bind_eq_some_iff.mp h
    obtain ⟨_, _, h⟩ := Option.bind_eq_some_iff.mp h
    split at h
    · cases h
      exact hchildren inside
    · cases h

/-- A piece of markup has lowercase tags if those inside it do. -/
theorem tagged_of_node? {found : Option Markup} (hchildren : ∀ ds, ∀ piece ∈ (children ds).1, piece.Tagged)
    (h : node? children cs = some (found, rest)) : ∀ piece ∈ found, piece.Tagged := by
  rw [node?] at h
  split at h
  · cases h
    exact fun _ hpiece => absurd hpiece (Option.not_mem_none _)
  · obtain ⟨⟨node, _⟩, hnode, heq⟩ := Option.map_eq_some_iff.mp h
    cases heq
    intro piece hpiece
    obtain rfl := Option.some.inj hpiece
    rw [Option.or_eq_some_iff, Option.or_eq_some_iff] at hnode
    rcases hnode with (h | ⟨_, h⟩) | ⟨_, h⟩
    · exact tagged_of_voidElement? h
    · exact tagged_of_element? hchildren h
    · exact tagged_of_text? h

/-- Pieces of markup have lowercase tags. -/
theorem tagged_of_mem_nodes (fuel : Nat) (cs : List Char) : ∀ piece ∈ (nodes fuel cs).1, piece.Tagged := by
  induction fuel generalizing cs with
  | zero => exact fun _ hpiece => absurd hpiece List.not_mem_nil
  | succ fuel ih =>
    rw [nodes]
    split
    · exact fun _ hpiece => absurd hpiece List.not_mem_nil
    · next hnode =>
      intro piece hpiece
      rcases List.mem_append.mp hpiece with hfirst | hrest
      · exact tagged_of_node? ih hnode piece (Option.mem_toList.mp hfirst)
      · exact ih _ piece hrest

/-- What is read from a text has lowercase tags. -/
theorem tagged_of_read {source : String} {found : List Markup} (h : read source = .ok found) :
    ∀ piece ∈ found, piece.Tagged := by
  have hnodes := tagged_of_mem_nodes source.toList.length source.toList
  rw [read] at h
  split at h
  · next hread =>
    cases h
    rwa [hread] at hnodes
  · cases h

end ReactiveTemplate.Markup
