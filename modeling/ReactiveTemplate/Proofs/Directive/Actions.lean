import Mathlib
import ReactiveTemplate.Proofs.Directive.Fragments
import ReactiveTemplate.Proofs.Text.Cursors

/-!
# Action lists carry every expression

A list of actions is written from assignments and calls with semicolons between them, with blanks around
every part and with empty actions anywhere. It is read back action by action: an assignment is told from
a call by what follows the name, a value ends at a semicolon, and an argument at a comma or at the
parenthesis that closes the call.
-/

namespace ReactiveTemplate.Directive

open Text Cursor

/-- Blanks between the parts of a text. -/
structure Blanks where
  chars : List Char
  isBlank_chars : ∀ c ∈ chars, isBlank c = true

/-- The name of a field or a method. -/
structure Name where
  text : String
  ne_nil : text.toList ≠ []
  isNameChar_text : ∀ c ∈ text.toList, isNameChar c = true

namespace ActionList

/-- An argument with blanks around it. -/
structure Given where
  before : Blanks
  argument : Argument Source
  behind : Blanks

namespace Given

/-- The name of the event, or the source of an expression. -/
def argumentChars : Argument Source → List Char
  | .event => eventName.toList
  | .given source => source.text.toList

/-- An argument in a text where it begins at `start`. -/
def argumentAt (start : Nat) : Argument Source → Argument Fragment
  | .event => .event
  | .given source => .given (source.fragment start)

/-- An argument as it is written, and as it is read. -/
def written (given : Given) : Written (Argument Fragment) where
  chars := given.before.chars ++ argumentChars given.argument ++ given.behind.chars
  value start := argumentAt (start + byteSize given.before.chars) given.argument

end Given

/-- An assignment or a call, with blanks around the equals sign or before the parenthesis. -/
inductive Item where
  | assign (target : Name) (gap lead : Blanks) (value : Source)
  | invoke (method : Name) (gap : Blanks) (arguments : List Given)

namespace Item

/-- What stands in front of the value or of the arguments. -/
def front : Item → List Char
  | assign target gap lead _ => target.text.toList ++ gap.chars ++ '=' :: lead.chars
  | invoke method gap _ => method.text.toList ++ gap.chars ++ ['(']

/-- The value, or the arguments with the parenthesis that closes them. -/
def body : Item → List Char
  | assign _ _ _ value => value.text.toList
  | invoke _ _ arguments => joined ',' (arguments.map Given.written) ++ [')']

/-- The action in a text where what stands behind the front begins at `start`. -/
def actionAt (start : Nat) : Item → Action Fragment Fragment
  | assign target _ _ value => .assign target.text (value.fragment start)
  | invoke method _ arguments => .invoke method.text (located ',' start (arguments.map Given.written))

end Item

/-- A part of an action list between semicolons: an action with blanks around it, or blanks only. -/
structure Segment where
  before : Blanks
  item : Option Item
  behind : Blanks

namespace Segment

/-- The characters of an action that may be missing. -/
def itemChars : Option Item → List Char
  | some item => item.front ++ item.body
  | none => []

/-- A part as it is written, and as it is read. -/
def written (segment : Segment) : Written (Option (Action Fragment Fragment)) where
  chars := segment.before.chars ++ itemChars segment.item ++ segment.behind.chars
  value start := segment.item.map fun item =>
    item.actionAt (start + byteSize segment.before.chars + byteSize item.front)

end Segment

/-- A list of actions with semicolons between its parts. -/
def listing (segments : List Segment) : String :=
  String.ofList (joined ';' (segments.map Segment.written))

/-- The actions of a list, with the places of their expressions. -/
def placed (segments : List Segment) : List (Action Fragment Fragment) :=
  (located ';' 0 (segments.map Segment.written)).filterMap id

/-! ### Names -/

/-- Characters of names are not blank. -/
theorem isBlank_of_isNameChar {c : Char} (h : isNameChar c = true) : isBlank c = false := by
  rw [isNameChar, Bool.or_eq_true, Bool.or_eq_true, beq_iff_eq, beq_iff_eq] at h
  rcases h with (h | rfl) | rfl
  · exact Expression.isBlank_eq_false_of_isValueChar (by simp [Expression.isValueChar, h])
  · decide
  · decide

/-- A name does not go on behind blanks. -/
theorem ends_isNameChar_of_blanks (blanks : Blanks) : Ends isNameChar blanks.chars := by
  intro c hc
  refine Bool.eq_false_iff.mpr fun hname => ?_
  have hblank := blanks.isBlank_chars c (List.mem_of_mem_head? hc)
  rw [isBlank_of_isNameChar hname] at hblank
  contradiction

/-- A name is no blank at its start. -/
theorem ends_isBlank_of_name (name : Name) (rest : List Char) : Ends isBlank (name.text.toList ++ rest) := by
  obtain ⟨c, cs, htext⟩ := List.exists_cons_of_ne_nil name.ne_nil
  rw [htext]
  exact ends_cons (isBlank_of_isNameChar (name.isNameChar_text c (by simp [htext]))) _

/-- A name is read with the blanks behind it. -/
theorem paddedName?_append (name : Name) (gap : Blanks) {rest : List Char} (hname : Ends isNameChar rest)
    (hblank : Ends isBlank rest) (offset : Nat) :
    paddedName? ⟨offset, name.text.toList ++ (gap.chars ++ rest)⟩ =
      some (name.text, ⟨offset + byteSize (name.text.toList ++ gap.chars), rest⟩) := by
  have hrun := run?_append name.ne_nil name.isNameChar_text ((ends_isNameChar_of_blanks gap).append hname) offset
  rw [paddedName?, skipBlank, skip_of_ends (ends_isBlank_of_name name _), name?, hrun]
  simp only [Option.map_some, Option.bind_eq_bind, Option.bind_some, skipBlank,
    skip_append gap.isBlank_chars hblank, String.ofList_toList, byteSize_append, Nat.add_assoc]
  rfl

/-- There is no name where none begins. -/
theorem paddedName?_of_ends {rest : List Char} (hname : Ends isNameChar rest) (hblank : Ends isBlank rest)
    (offset : Nat) : paddedName? ⟨offset, rest⟩ = none := by
  rw [paddedName?, skipBlank, skip_of_ends hblank, name?, run?, leading, hname.takeWhile_eq]
  rfl

/-! ### Arguments -/

/-- The characters at which an argument ends. -/
def endsArgument (c : Char) : Bool :=
  c == ',' || c == ';'

/-- Arguments end at separators. -/
theorem separates_endsArgument : Separates endsArgument := by
  intro c h
  rw [endsArgument, Bool.or_eq_true, beq_iff_eq, beq_iff_eq] at h
  exact h.imp_right Or.inl

/-- An argument is closed and not blank. -/
theorem closed_argumentChars (argument : Argument Source) :
    Closed (Given.argumentChars argument) ∧ ∃ c ∈ Given.argumentChars argument, isBlank c = false := by
  cases argument with
  | event => exact ⟨.of_ordinary (by simp [Given.argumentChars, eventName, isOrdinary, Fragment.isQuote]),
      '$', by simp [Given.argumentChars, eventName], by decide⟩
  | given source => exact ⟨source.closed, source.not_blank⟩

/-- Only the name of the event stands for the event. -/
theorem ofFragment_ofChars (argument : Argument Source) (start : Nat) :
    ofFragment (.ofChars start (Given.argumentChars argument)) = Given.argumentAt start argument := by
  cases argument with
  | event => rfl
  | given source =>
    rw [ofFragment, if_neg]
    · rfl
    · exact source.trimmed_ne_eventName

/-- An argument is read as it was written. -/
theorem reads_given (given : Given) : Reads argument? (AtStop endsArgument) given.written := by
  intro offset rest hrest
  obtain ⟨hclosed, hsome⟩ := closed_argumentChars given.argument
  have hall := ((Closed.of_blanks given.before.isBlank_chars).append hclosed).append
    (Closed.of_blanks given.behind.isBlank_chars)
  have hcut := hall.cut?_append separates_endsArgument
    (by obtain ⟨c, hc, hblank⟩ := hsome; exact ⟨c, by simp [hc], hblank⟩) hrest offset
  rw [Fragment.ofChars_padded given.before.isBlank_chars hsome given.behind.isBlank_chars] at hcut
  change (Fragment.cut? endsArgument _ >>= _) = _
  rw [Given.written, hcut]
  change some (ofFragment _, _) = _
  rw [ofFragment_ofChars]

/-- Arguments are read as they were written. -/
theorem arguments?_append (arguments : List Given) (rest : List Char) (offset : Nat) :
    arguments? ⟨offset, '(' :: (joined ',' (arguments.map Given.written) ++ ')' :: rest)⟩ =
      some (located ',' (offset + 1) (arguments.map Given.written),
        ⟨offset + byteSize ('(' :: joined ',' (arguments.map Given.written) ++ [')']), rest⟩) := by
  have hreads : ∀ w ∈ arguments.map Given.written, Reads argument? (AtStop endsArgument) w :=
    List.forall_mem_map.mpr fun given _ => reads_given given
  have hclosing : AtStop endsArgument (')' :: rest) := atStop_cons (Or.inl rfl) rest
  have hnone (offset : Nat) : argument? ⟨offset, ')' :: rest⟩ = none := by
    change (Fragment.cut? endsArgument _ >>= _) = _
    rw [hclosing.cut?_eq_none separates_endsArgument]
    rfl
  have harguments : separated argument? ',' false
      ⟨offset + 1, joined ',' (arguments.map Given.written) ++ ')' :: rest⟩ = _ :=
    separated_joined hreads (atStop_cons (Or.inr rfl)) hclosing (ends_cons (by decide) rest) (offset + 1)
      fun _ => hnone (offset + 1)
  have hopening : past? ⟨offset, '(' :: (joined ',' (arguments.map Given.written) ++ ')' :: rest)⟩ '(' =
      some ⟨offset + 1, joined ',' (arguments.map Given.written) ++ ')' :: rest⟩ := past?_cons offset '(' _
  rw [arguments?, hopening]
  simp only [Option.bind_eq_bind, Option.bind_some, harguments, skipBlank,
    skip_of_ends (ends_cons (p := isBlank) (c := ')') (by decide) _), past?_cons]
  have hplace : offset + 1 + byteSize (joined ',' (arguments.map Given.written)) + ')'.utf8Size =
      offset + byteSize ('(' :: joined ',' (arguments.map Given.written) ++ [')']) := by
    have hone : '('.utf8Size = 1 := rfl
    rw [List.cons_append, byteSize_cons, byteSize_append, byteSize_cons, byteSize_nil, hone]
    omega
  rw [hplace]
  rfl

/-! ### Actions -/

/-- The end of the text, or a semicolon. -/
def EndsItem (rest : List Char) : Prop :=
  ∀ c ∈ rest.head?, c = ';'

namespace EndsItem

variable {rest : List Char}

/-- A class without the semicolon ends there. -/
theorem ends (h : EndsItem rest) {p : Char → Bool} (hp : p ';' = false) : Ends p rest :=
  fun c hc => h c hc ▸ hp

/-- A value ends there. -/
theorem atStop (h : EndsItem rest) : AtStop (· == ';') rest :=
  fun c hc => Or.inr (by rw [h c hc]; rfl)

end EndsItem

/-- Values of assignments end at separators. -/
theorem separates_semicolon : Separates (· == ';') :=
  fun _ h => Or.inr (Or.inl (beq_iff_eq.mp h))

section Items

variable (behind : Blanks) {rest : List Char}

/-- An assignment is read as it was written. -/
theorem assign?_append (target : Name) (gap lead : Blanks) (value : Source) (hrest : EndsItem rest)
    (offset : Nat) :
    assign? ⟨offset, (Item.assign target gap lead value).front ++
        ((Item.assign target gap lead value).body ++ (behind.chars ++ rest))⟩ =
      some ((Item.assign target gap lead value).actionAt
          (offset + byteSize (Item.assign target gap lead value).front),
        ⟨offset + byteSize ((Item.assign target gap lead value).front ++
          ((Item.assign target gap lead value).body ++ behind.chars)), rest⟩) := by
  have hchars : (Item.assign target gap lead value).front ++
      ((Item.assign target gap lead value).body ++ (behind.chars ++ rest)) =
      target.text.toList ++ (gap.chars ++ '=' ::
        (lead.chars ++ value.text.toList ++ behind.chars ++ rest)) := by
    simp [Item.front, Item.body]
  have hname := paddedName?_append target gap
    (ends_cons (p := isNameChar) (c := '=') (by decide)
      (lead.chars ++ value.text.toList ++ behind.chars ++ rest)) (ends_cons (by decide) _) offset
  -- The value does not begin with a second equals sign, and its blanks belong to what is cut out.
  have hsingle : Ends (· == '=') (lead.chars ++ value.text.toList ++ behind.chars ++ rest) :=
    (((ends_equals_of_blanks lead.isBlank_chars).append value.no_equals).append
      (ends_equals_of_blanks behind.isBlank_chars)).append (hrest.ends (by decide))
  have hclosed := ((Closed.of_blanks lead.isBlank_chars).append value.closed).append
    (Closed.of_blanks behind.isBlank_chars)
  have hsome : ∃ c ∈ lead.chars ++ value.text.toList ++ behind.chars, isBlank c = false := by
    obtain ⟨c, hc, hblank⟩ := value.not_blank
    exact ⟨c, by simp [hc], hblank⟩
  have hcut (start : Nat) := hclosed.cut?_append separates_semicolon hsome hrest.atStop start
  rw [hchars, assign?, hname]
  simp only [Option.bind_eq_bind, Option.bind_some, past?_cons, past?_of_ends hsingle, hcut,
    Fragment.ofChars_padded lead.isBlank_chars value.not_blank behind.isBlank_chars]
  have hfront : offset + byteSize (target.text.toList ++ gap.chars) + '='.utf8Size + byteSize lead.chars =
      offset + byteSize (Item.assign target gap lead value).front := by
    simp [Item.front, Nat.add_assoc]
  have hend : offset + byteSize (target.text.toList ++ gap.chars) + '='.utf8Size +
      byteSize (lead.chars ++ value.text.toList ++ behind.chars) =
      offset + byteSize ((Item.assign target gap lead value).front ++
        ((Item.assign target gap lead value).body ++ behind.chars)) := by
    simp [Item.front, Item.body, Nat.add_assoc]
  rw [hfront, hend]
  rfl

/-- A call is no assignment, and is read as it was written. -/
theorem invoke?_append (method : Name) (gap : Blanks) (arguments : List Given) (hrest : EndsItem rest)
    (offset : Nat) :
    (assign? ⟨offset, (Item.invoke method gap arguments).front ++
        ((Item.invoke method gap arguments).body ++ (behind.chars ++ rest))⟩).or
      (invoke? ⟨offset, (Item.invoke method gap arguments).front ++
        ((Item.invoke method gap arguments).body ++ (behind.chars ++ rest))⟩) =
      some ((Item.invoke method gap arguments).actionAt
          (offset + byteSize (Item.invoke method gap arguments).front),
        ⟨offset + byteSize ((Item.invoke method gap arguments).front ++
          ((Item.invoke method gap arguments).body ++ behind.chars)), rest⟩) := by
  have hchars : (Item.invoke method gap arguments).front ++
      ((Item.invoke method gap arguments).body ++ (behind.chars ++ rest)) =
      method.text.toList ++ (gap.chars ++ '(' :: (joined ',' (arguments.map Given.written) ++
        ')' :: (behind.chars ++ rest))) := by
    simp [Item.front, Item.body]
  have hname := paddedName?_append method gap
    (ends_cons (p := isNameChar) (c := '(') (by decide) (joined ',' (arguments.map Given.written) ++
      ')' :: (behind.chars ++ rest))) (ends_cons (by decide) _) offset
  have hassign : assign? ⟨offset, method.text.toList ++ (gap.chars ++ '(' ::
      (joined ',' (arguments.map Given.written) ++ ')' :: (behind.chars ++ rest)))⟩ = none := by
    rw [assign?, hname]
    simp only [Option.bind_eq_bind, Option.bind_some]
    rw [past?_of_ends (ends_cons (by decide) _)]
    rfl
  rw [hchars, hassign, Option.none_or, invoke?, hname]
  simp only [Option.bind_eq_bind, Option.bind_some, arguments?_append, Option.getD_some, skipBlank,
    skip_append behind.isBlank_chars (hrest.ends (p := isBlank) (by decide))]
  have hfront : offset + byteSize (method.text.toList ++ gap.chars) + 1 =
      offset + byteSize (Item.invoke method gap arguments).front := by
    have hone : '('.utf8Size = 1 := rfl
    simp [Item.front, hone, Nat.add_assoc]
  have hend : offset + byteSize (method.text.toList ++ gap.chars) +
      byteSize ('(' :: joined ',' (arguments.map Given.written) ++ [')']) + byteSize behind.chars =
      offset + byteSize ((Item.invoke method gap arguments).front ++
        ((Item.invoke method gap arguments).body ++ behind.chars)) := by
    simp [Item.front, Item.body, Nat.add_assoc]
  rw [hfront, hend]
  rfl

/-- An action is read as it was written. -/
theorem item_append (item : Item) (hrest : EndsItem rest) (offset : Nat) :
    (assign? ⟨offset, item.front ++ (item.body ++ (behind.chars ++ rest))⟩).or
      (invoke? ⟨offset, item.front ++ (item.body ++ (behind.chars ++ rest))⟩) =
      some (item.actionAt (offset + byteSize item.front),
        ⟨offset + byteSize (item.front ++ (item.body ++ behind.chars)), rest⟩) := by
  cases item with
  | assign target gap lead value => rw [assign?_append behind target gap lead value hrest, Option.some_or]
  | invoke method gap arguments => exact invoke?_append behind method gap arguments hrest offset

end Items

/-- Where blanks only are left, there is no action. -/
theorem no_item {rest : List Char} (hrest : EndsItem rest) (offset : Nat) :
    (assign? ⟨offset, rest⟩).or (invoke? ⟨offset, rest⟩) = none := by
  have hname := paddedName?_of_ends (hrest.ends (p := isNameChar) (by decide))
    (hrest.ends (p := isBlank) (by decide)) offset
  rw [assign?, invoke?, hname]
  rfl

/-- An action starts with no blank. -/
theorem ends_isBlank_of_item (written : Item) (rest : List Char) : Ends isBlank (written.front ++ rest) := by
  cases written with
  | assign target gap lead value =>
    rw [Item.front, List.append_assoc, List.append_assoc]
    exact ends_isBlank_of_name target _
  | invoke method gap arguments =>
    rw [Item.front, List.append_assoc, List.append_assoc]
    exact ends_isBlank_of_name method _

/-- A part of an action list is read as it was written. -/
theorem reads_segment (segment : Segment) :
    Reads (fun c => some (item c)) EndsItem segment.written := by
  intro offset rest hrest
  obtain ⟨before, written, behind⟩ := segment
  have hblank : Ends isBlank rest := hrest.ends (by decide)
  cases written with
  | none =>
    have hskip := skip_append (p := isBlank)
      (List.forall_mem_append.mpr ⟨before.isBlank_chars, behind.isBlank_chars⟩) hblank offset
    simp only [Segment.written, Segment.itemChars, List.append_nil, item, skipBlank, hskip, no_item hrest]
    rfl
  | some written =>
    have hchars : (Segment.written ⟨before, some written, behind⟩).chars ++ rest =
        before.chars ++ (written.front ++ (written.body ++ (behind.chars ++ rest))) := by
      simp [Segment.written, Segment.itemChars]
    have hskip := skip_append before.isBlank_chars
      (ends_isBlank_of_item written (written.body ++ (behind.chars ++ rest))) offset
    have hplace : offset + byteSize before.chars + byteSize (written.front ++ (written.body ++ behind.chars)) =
        offset + byteSize (Segment.written ⟨before, some written, behind⟩).chars := by
      simp [Segment.written, Segment.itemChars, Nat.add_assoc]
    simp only [hchars, item, skipBlank, hskip, item_append behind written hrest, skip_of_ends hblank, hplace]
    rfl

/-- A list of actions is read as it was written. -/
theorem ofText?_listing (segments : List Segment) : ofText? (listing segments) = some (placed segments) := by
  cases segments with
  | nil => rfl
  | cons segment segments =>
    have hreads : ∀ w ∈ (segment :: segments).map Segment.written, Reads (fun c => some (item c)) EndsItem w :=
      List.forall_mem_map.mpr fun segment _ => reads_segment segment
    have hseparator (rest : List Char) : EndsItem (';' :: rest) := by
      intro c hc
      rw [List.head?_cons, Option.mem_some_iff] at hc
      exact hc.symm
    have hnil : EndsItem [] := by
      intro c hc
      contradiction
    have hall : separated (fun c => some (item c)) ';' false
        ⟨0, joined ';' ((segment :: segments).map Segment.written) ++ []⟩ = _ :=
      separated_joined hreads hseparator hnil (ends_nil _) 0 (by simp)
    rw [List.append_nil] at hall
    rw [ofText?, Cursor.start, listing, String.toList_ofList, hall]
    rfl

/-! ### Places -/

/-- The expressions of an action lie in a text. -/
def LiesIn (whole : String) : Action Fragment Fragment → Prop
  | .assign _ value => value.LiesIn whole
  | .invoke _ arguments => ∀ f, .given f ∈ arguments → f.LiesIn whole

section Places

variable {whole : String} {before behind : List Char}

/-- The expression of an argument lies where the argument was written. -/
theorem liesIn_given (given : Given) (h : whole.toList = before ++ given.written.chars ++ behind) :
    ∀ f, given.written.value (byteSize before) = .given f → f.LiesIn whole := by
  intro f hf
  obtain ⟨lead, argument, trail⟩ := given
  cases argument with
  | event => cases hf
  | given source =>
    have hplace : whole.toList = before ++ lead.chars ++ source.text.toList ++ (trail.chars ++ behind) := by
      simpa [Given.written, Given.argumentChars] using h
    simp only [Given.written, Given.argumentAt, ← byteSize_append, Argument.given.injEq] at hf
    exact hf ▸ Fragment.liesIn_ofChars hplace

/-- The expressions of an action lie where the action was written. -/
theorem liesIn_actionAt (item : Item) (h : whole.toList = before ++ item.body ++ behind) :
    LiesIn whole (item.actionAt (byteSize before)) := by
  cases item with
  | assign target gap lead value => exact Fragment.liesIn_ofChars h
  | invoke method gap arguments =>
    have hplace : whole.toList = before ++ joined ',' (arguments.map Given.written) ++ (')' :: behind) := by
      simpa [Item.body] using h
    have hall := forall_mem_located (P := fun found => ∀ f, found = Argument.given f → f.LiesIn whole)
      (List.forall_mem_map.mpr fun given _ _ _ hgiven => liesIn_given given hgiven) hplace
    exact fun f hf => hall _ hf f rfl

end Places

/-- The expressions of a list of actions lie in it where they were written. -/
theorem liesIn_placed (segments : List Segment) :
    ∀ action ∈ placed segments, LiesIn (listing segments) action := by
  have hlisting : (listing segments).toList = [] ++ joined ';' (segments.map Segment.written) ++ [] := by
    rw [listing, String.toList_ofList, List.nil_append, List.append_nil]
  have hall := forall_mem_located
    (P := fun found => ∀ action, found = some action → LiesIn (listing segments) action)
    (List.forall_mem_map.mpr fun segment _ before behind hwhole => ?_) hlisting
  · intro action haction
    obtain ⟨found, hfound, heq⟩ := List.mem_filterMap.mp haction
    exact hall found hfound action heq
  · intro action haction
    obtain ⟨lead, written, trail⟩ := segment
    cases written with
    | none => cases haction
    | some written =>
      have hplace : (listing segments).toList =
          before ++ lead.chars ++ written.front ++ written.body ++ (trail.chars ++ behind) := by
        simpa [Segment.written, Segment.itemChars] using hwhole
      simp only [Segment.written, Option.map_some, Option.some.injEq, ← byteSize_append] at haction
      exact haction ▸ liesIn_actionAt written hplace

/-! ### Compiled actions -/

/-- An argument is compiled to the event, or to what its trimmed source is compiled to. -/
inductive Given.Compiled : Given → Argument Expression → Prop where
  | event (before behind : Blanks) : Compiled ⟨before, .event, behind⟩ .event
  | given (before behind : Blanks) {source : Source} {e : Expression}
      (h : Expression.compile (trimmed source.text) = .ok e) :
      Compiled ⟨before, .given source, behind⟩ (.given e)

/-- An action is compiled to one of its kind and name, with what its trimmed sources are compiled to. -/
inductive Item.Compiled : Item → Action Expression Expression → Prop where
  | assign (target : Name) (gap lead : Blanks) {value : Source} {e : Expression}
      (h : Expression.compile (trimmed value.text) = .ok e) :
      Compiled (.assign target gap lead value) (.assign target.text e)
  | invoke (method : Name) (gap : Blanks) {arguments : List Given} {found : List (Argument Expression)}
      (h : List.Forall₂ Given.Compiled arguments found) :
      Compiled (.invoke method gap arguments) (.invoke method.text found)

/-- An argument is compiled, whatever text it is taken to lie in. -/
theorem compileArgument_written (whole : String) (given : Given) (start : Nat) :
    ∃ found, compileArgument whole (given.written.value start) = .ok found ∧ given.Compiled found := by
  obtain ⟨before, argument, behind⟩ := given
  cases argument with
  | event => exact ⟨.event, rfl, .event before behind⟩
  | given source =>
    obtain ⟨e, he, hfragment⟩ := source.compileFragment_fragment
    refine ⟨.given e, ?_, .given before behind he⟩
    change (compileFragment whole (source.fragment _) >>= _) = _
    rw [hfragment]
    rfl

/-- An action is compiled, whatever text it is taken to lie in. -/
theorem compileAction_actionAt (whole : String) (item : Item) (start : Nat) :
    ∃ found, compileAction whole (item.actionAt start) = .ok found ∧ item.Compiled found := by
  cases item with
  | assign target gap lead value =>
    obtain ⟨e, he, hfragment⟩ := value.compileFragment_fragment
    refine ⟨.assign target.text e, ?_, .assign target gap lead he⟩
    rw [Item.actionAt, compileAction, hfragment]
    rfl
  | invoke method gap arguments =>
    obtain ⟨found, hfound, hcompiled⟩ := mapM_located ','
      (fun given (_ : given ∈ arguments) => compileArgument_written whole given) start
    refine ⟨.invoke method.text found, ?_, .invoke method gap hcompiled⟩
    rw [Item.actionAt, compileAction, hfound]
    rfl

/-- The actions of a list are compiled in order, wherever it begins. -/
theorem compileAction_located (whole : String) (segments : List Segment) (start : Nat) :
    ∃ found, ((located ';' start (segments.map Segment.written)).filterMap id).mapM (compileAction whole) =
        .ok found ∧
      List.Forall₂ Item.Compiled (segments.filterMap Segment.item) found := by
  induction segments generalizing start with
  | nil => exact ⟨[], rfl, .nil⟩
  | cons segment segments ih =>
    obtain ⟨found, hfound, hcompiled⟩ := ih (start + byteSize segment.written.chars + ';'.utf8Size)
    obtain ⟨before, written, behind⟩ := segment
    cases written with
    | none => exact ⟨found, hfound, hcompiled⟩
    | some written =>
      obtain ⟨first, hfirst, hitem⟩ := compileAction_actionAt whole written
        (start + byteSize before.chars + byteSize written.front)
      refine ⟨first :: found, ?_, .cons hitem hcompiled⟩
      change (List.mapM (compileAction whole) (written.actionAt _ :: _)) = _
      rw [List.mapM_cons, hfirst, hfound]
      rfl

/-- A list of assignments and calls of any names with any sources that compile is read action by action,
with the places of the trimmed sources. From every cache that comes of compiling it gives the actions in
order, each with what its trimmed sources are compiled to. -/
theorem actions_listing (segments : List Segment) {cache : CompileCache} (hcache : cache.Reached) :
    readActions (listing segments) = .ok (placed segments) ∧
      (∀ action ∈ placed segments, LiesIn (listing segments) action) ∧
      ∃ found, ((Compile.actions (listing segments)).run.run cache).1 = .ok found ∧
        List.Forall₂ Item.Compiled (segments.filterMap Segment.item) found := by
  have hread : readActions (listing segments) = .ok (placed segments) := by
    rw [readActions, ofText?_listing]
  obtain ⟨found, hfound, hcompiled⟩ := compileAction_located (listing segments) segments 0
  refine ⟨hread, liesIn_placed segments, found, ?_, hcompiled⟩
  rw [(Compile.answers_actions (listing segments) cache hcache.faithful).1, compileActions, hread]
  exact hfound

/-- An assignment, an empty action and a call, with separators between quotes, compiled with the empty cache. -/
theorem actions_listing_separators :
    readActions "x = 'a;b'; ;go($event, \"c,d\")" = .ok [.assign "x" ⟨"'a;b'", ⟨4, 9⟩⟩,
        .invoke "go" [.event, .given ⟨"\"c,d\"", ⟨23, 28⟩⟩]] ∧
      ∃ found, ((Compile.actions "x = 'a;b'; ;go($event, \"c,d\")").run.run .empty).1 = .ok found ∧
        found.length = 2 := by
  obtain ⟨segments, hsegments⟩ : ∃ segments : List Segment, segments =
      [⟨⟨[], by simp⟩, some (.assign ⟨"x", by decide, by simp [isNameChar]⟩ ⟨[' '], by simp [isBlank]⟩
          ⟨[' '], by simp [isBlank]⟩
          (.quoted [] '\'' ['a', ';', 'b'] [] (by simp) (by decide) (by decide) (by simp))), ⟨[], by simp⟩⟩,
        ⟨⟨[' '], by simp [isBlank]⟩, none, ⟨[], by simp⟩⟩,
        ⟨⟨[], by simp⟩, some (.invoke ⟨"go", by decide, by simp [isNameChar]⟩ ⟨[], by simp⟩
          [⟨⟨[], by simp⟩, .event, ⟨[], by simp⟩⟩,
            ⟨⟨[' '], by simp [isBlank]⟩,
              .given (.quoted [] '"' ['c', ',', 'd'] [] (by simp) (by decide) (by decide) (by simp)),
              ⟨[], by simp⟩⟩]), ⟨[], by simp⟩⟩] :=
    ⟨_, rfl⟩
  have hlisting : listing segments = "x = 'a;b'; ;go($event, \"c,d\")" := by
    rw [hsegments]
    decide
  have hplaced : placed segments = [.assign "x" ⟨"'a;b'", ⟨4, 9⟩⟩,
      .invoke "go" [.event, .given ⟨"\"c,d\"", ⟨23, 28⟩⟩]] := by
    rw [hsegments]
    decide
  obtain ⟨hread, _, found, hfound, hcompiled⟩ := actions_listing segments .empty
  rw [hlisting] at hread hfound
  refine ⟨hread.trans (congrArg _ hplaced), found, hfound, ?_⟩
  rw [← hcompiled.length_eq, hsegments]
  rfl

end ActionList

end ReactiveTemplate.Directive
