import ReactiveTemplate.Proofs.Markup.Entities

/-!
# Entities in one pass

A text is searched for one entity of the table after another, each time from its beginning and with what the
searches before have put in. Still no entity is made or broken on the way: behind its ampersand it holds neither
another ampersand nor a character that is put in. So the text is read as by a single pass from left to right,
which never looks back at what it wrote.
-/

namespace ReactiveTemplate.Markup

open ReactiveTemplate.Text

/-! ### The pass -/

/-- The entity of the table with which a text begins, and its character. -/
def entityAt? (cs : List Char) : Option (String × Char) :=
  entities.find? fun (entity, _) => entity.toList.isPrefixOf cs

/-- A text read from left to right: an entity is written as its character, and the reading goes on behind it; any
other character is written as it stands. -/
def decodePass (text : List Char) : List Char :=
  match text with
  | [] => []
  | c :: cs =>
    match entityAt? (c :: cs) with
    | some (entity, character) => character :: decodePass (cs.drop (entity.length - 1))
    | none => c :: decodePass cs
termination_by text.length
decreasing_by
  all_goals simp only [List.length_drop, List.length_cons]; omega

/-- A text that begins with an entity of the table is that entity and what comes behind it. -/
theorem exists_of_entityAt? {cs : List Char} {entity : String} {character : Char}
    (h : entityAt? cs = some (entity, character)) :
    (entity, character) ∈ entities ∧ cs = entity.toList ++ cs.drop entity.length := by
  rw [entityAt?] at h
  refine ⟨List.mem_of_find?_eq_some h, ?_⟩
  have hbegins := List.find?_some h
  obtain ⟨rest, rfl⟩ := List.isPrefixOf_iff_prefix.mp hbegins
  rw [← String.length_toList, List.drop_left]

/-! ### Entities apart -/

/-- Behind its ampersand, no entity of the table holds an ampersand or a character of the table. -/
theorem entity_apart : ∀ entry ∈ entities, ∃ name, entry.1.toList = '&' :: name ∧ '&' ∉ name ∧
    ∀ other ∈ entities, other.2 ∉ name := by
  intro entry hentry
  refine ⟨entry.1.toList.tail, ?_⟩
  revert entry
  decide +kernel

/-- Whether a text begins with the rest of an entity is the same before and after another entity was replaced. -/
theorem isPrefixOf_replaceAll {name : List Char} {new : Char} (hampersand : '&' ∉ name) (hnew : new ∉ name)
    (sought cs : List Char) :
    name.isPrefixOf (replaceAll ('&' :: sought) [new] cs) = name.isPrefixOf cs := by
  induction name generalizing cs with
  | nil => simp only [List.isPrefixOf_nil_left]
  | cons a name ih =>
    rw [List.mem_cons, not_or] at hampersand hnew
    cases cs with
    | nil => rw [replaceAll]
    | cons c cs =>
      rw [replaceAll]
      split
      · next hbegins =>
        -- The entity that is replaced begins with an ampersand, so neither text begins with `a`.
        have hc : '&' = c := (List.cons_prefix_cons.mp (List.isPrefixOf_iff_prefix.mp hbegins)).1
        rw [← hc, List.singleton_append, List.isPrefixOf_cons_cons, List.isPrefixOf_cons_cons,
          beq_false_of_ne (Ne.symm hampersand.1), beq_false_of_ne (Ne.symm hnew.1)]
        rfl
      · rw [List.isPrefixOf_cons_cons, List.isPrefixOf_cons_cons, ih hampersand.2 hnew.2]

/-- An ampersand with which no entity begins stays where it is when entities of the table are replaced. -/
theorem foldl_replaceAll_ampersand {table : List (String × Char)} (htable : ∀ entry ∈ table, entry ∈ entities)
    {cs : List Char} (hnone : ∀ entry ∈ table, entry.1.toList.isPrefixOf ('&' :: cs) = false) :
    table.foldl (fun cs (entity, character) => replaceAll entity.toList [character] cs) ('&' :: cs) =
      '&' :: table.foldl (fun cs (entity, character) => replaceAll entity.toList [character] cs) cs := by
  induction table generalizing cs with
  | nil => rfl
  | cons first rest ih =>
    obtain ⟨entity, character⟩ := first
    have hfirst : entity.toList.isPrefixOf ('&' :: cs) = false := hnone _ List.mem_cons_self
    have hmem : (entity, character) ∈ entities := htable _ List.mem_cons_self
    have hstays : replaceAll entity.toList [character] ('&' :: cs) =
        '&' :: replaceAll entity.toList [character] cs := by
      rw [replaceAll, hfirst]
      rfl
    simp only [List.foldl_cons, hstays]
    refine ih (fun entry hentry => htable entry (List.mem_cons_of_mem _ hentry)) fun entry hentry => ?_
    obtain ⟨sought, hsought, _, _⟩ := entity_apart _ hmem
    obtain ⟨name, hname, hampersand, hcharacters⟩ := entity_apart entry (htable entry (List.mem_cons_of_mem _ hentry))
    have hbefore := hnone entry (List.mem_cons_of_mem _ hentry)
    rw [hname, List.isPrefixOf_cons_cons_self] at hbefore ⊢
    rw [hsought, isPrefixOf_replaceAll hampersand (hcharacters _ hmem), hbefore]

/-- Replacing one entity after another reads a text as the pass does. -/
theorem decodeChars_eq_decodePass (cs : List Char) : decodeChars cs = decodePass cs := by
  fun_induction decodePass cs with
  | case1 => exact decodeChars_nil
  | case2 c cs entity character hentity ih =>
    obtain ⟨hmem, hcut⟩ := exists_of_entityAt? hentity
    obtain ⟨name, hname, _, _⟩ := entity_apart _ hmem
    have hlength : entity.length = name.length + 1 := by
      rw [← String.length_toList, hname, List.length_cons]
    have hdrop : (c :: cs).drop entity.length = cs.drop (entity.length - 1) := by
      rw [hlength, List.drop_succ_cons, Nat.add_sub_cancel]
    rw [hcut, hdrop, decodeChars_entity hmem, ih]
  | case3 c cs hnone ih =>
    by_cases hc : c = '&'
    · subst hc
      have hfind := List.find?_eq_none.mp hnone
      rw [decodeChars, foldl_replaceAll_ampersand (fun _ h => h) fun entry hentry =>
        Bool.eq_false_iff.mpr (hfind entry hentry), ← decodeChars, ih]
    · rw [decodeChars_cons hc, ih]

/-- Entities are decoded once: reading any text is the single pass from left to right that writes each of the six
entities as its character and does not look at what it wrote. So what was escaped as a text or as an attribute
value is read back, whatever it looks like. -/
theorem decodeEntities_eq_decodePass (text : String) :
    decodeEntities text = String.ofList (decodePass text.toList) ∧
      decodeEntities (escapeText text) = text ∧ decodeEntities (escapeAttribute text) = text := by
  refine ⟨?_, decodeEntities_escapeText text, decodeEntities_escapeAttribute text⟩
  rw [← decodeChars_eq_decodePass]
  rfl

/-- What is read from an entity is not the start of another one. -/
example : decodeEntities "&amp;lt; &&gt;&lt" = "&lt; &>&lt" := by
  cbv

end ReactiveTemplate.Markup
