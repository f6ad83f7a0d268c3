import Mathlib
import ReactiveTemplate.Proofs.Expression.Placing
import ReactiveTemplate.Proofs.Text.Places

/-!
# What the scanner accepts, and where it stops

A source is accepted if and only if all its characters outside of quoted texts belong to a class, and no quoted
text is left open. Otherwise the fault is the first stray character, or the quote that was never closed. The
tokens lie side by side in the source, and their texts with single spaces between them are scanned to the same
words.
-/

namespace ReactiveTemplate.Expression

open ReactiveTemplate.Text

/-! ### Quoted texts and stray characters -/

/-- The quote that is open behind a character. -/
def quoteBehind : Option Char → Char → Option Char
  | none, c => if isQuote c then some c else none
  | some quote, c => if c = quote then none else some quote

/-- The quote that is open behind characters. -/
def openQuote (cs : List Char) : Option Char :=
  cs.foldl quoteBehind none

/-- The character belongs to no class. -/
def IsStray (c : Char) : Prop :=
  isMark c = false ∧ isQuote c = false ∧ isValueChar c = false ∧ isOperatorChar c = false ∧ isBlank c = false

/-- No character outside of quoted texts is stray. -/
def Clean (cs : List Char) : Prop :=
  ∀ before c behind, cs = before ++ c :: behind → openQuote before = none → ¬IsStray c

/-- The first fault of characters that begin at `start`: a stray character with none before it, or else the quote
that is left open, with all that is behind it. -/
inductive FirstFault (start : Nat) : List Char → Located → Prop
  | stray {before behind : List Char} {c : Char} (hclean : Clean before) (hopen : openQuote before = none)
      (hc : IsStray c) :
      FirstFault start (before ++ c :: behind) ⟨.unexpectedCharacter c, .covering (start + byteSize before) [c]⟩
  | unclosed {before behind : List Char} {quote : Char} (hclean : Clean (before ++ quote :: behind))
      (hopen : openQuote before = none) (hquote : isQuote quote = true) (hbehind : quote ∉ behind) :
      FirstFault start (before ++ quote :: behind)
        ⟨.unterminatedString, .covering (start + byteSize before) (quote :: behind)⟩

section Quotes

variable {cs ds : List Char} {quote : Char}

/-- A quote stays open until it comes again. -/
theorem foldl_quoteBehind (h : quote ∉ cs) : cs.foldl quoteBehind (some quote) = some quote := by
  induction cs with
  | nil => rfl
  | cons c cs ih =>
    obtain ⟨hne, hcs⟩ := not_or.mp (List.mem_cons.not.mp h)
    rw [List.foldl_cons, quoteBehind, if_neg (Ne.symm hne), ih hcs]

/-- Where no quote is open, what comes behind does not depend on what is before. -/
theorem openQuote_append (h : openQuote cs = none) (ds : List Char) : openQuote (cs ++ ds) = openQuote ds := by
  rw [openQuote, List.foldl_append, ← openQuote, h, openQuote]

/-- No quote is opened without one. -/
theorem openQuote_of_no_quote (h : ∀ c ∈ cs, isQuote c = false) : openQuote cs = none := by
  induction cs with
  | nil => rfl
  | cons c cs ih =>
    obtain ⟨hc, hcs⟩ := List.forall_mem_cons.mp h
    rw [openQuote, List.foldl_cons, quoteBehind, hc]
    exact ih hcs

/-- A quote that does not come again is open. -/
theorem openQuote_quote_cons (hquote : isQuote quote = true) (h : quote ∉ cs) :
    openQuote (quote :: cs) = some quote := by
  rw [openQuote, List.foldl_cons, quoteBehind, if_pos hquote, foldl_quoteBehind h]

/-- Nothing is stray where there is nothing. -/
theorem clean_nil : Clean [] :=
  fun before c behind h => absurd h.symm (by simp)

/-- What is in front of clean characters is clean. -/
theorem Clean.of_append (h : Clean (cs ++ ds)) : Clean cs :=
  fun before c behind hcs => h before c (behind ++ ds) (by rw [hcs, List.append_assoc, List.cons_append])

/-- Characters without a quote are clean if none of them is stray. -/
theorem clean_of_no_stray (h : ∀ c ∈ cs, ¬IsStray c) : Clean cs :=
  fun before c behind hcs _ => h c (by simp [hcs])

/-- Clean characters behind those after which no quote is open. -/
theorem Clean.append (hcs : Clean cs) (hopen : openQuote cs = none) (hds : Clean ds) : Clean (cs ++ ds) := by
  intro before c behind heq hbefore
  rcases List.append_eq_append_iff.mp heq with ⟨inner, rfl, hinner⟩ | ⟨inner, hinner, hrest⟩
  · rw [openQuote_append hopen] at hbefore
    exact hds inner c behind hinner hbefore
  · cases inner with
    | nil =>
      rw [List.append_nil] at hinner
      exact hds [] c behind hrest.symm rfl
    | cons d inner =>
      obtain ⟨rfl, -⟩ := List.cons.inj hrest
      exact hcs before c inner hinner hbefore

/-- Clean characters with one behind them that is not stray. -/
theorem Clean.concat {c : Char} (hcs : Clean cs) (hc : ¬IsStray c) : Clean (cs ++ [c]) := by
  intro before d behind heq hbefore
  rcases List.eq_nil_or_concat behind with rfl | ⟨more, e, rfl⟩
  · obtain ⟨_, hlast⟩ := List.append_inj' heq rfl
    exact (List.cons.inj hlast).1 ▸ hc
  · rw [List.concat_eq_append, ← List.cons_append, ← List.append_assoc] at heq
    exact hcs before d more (List.append_inj' heq rfl).1 hbefore

/-- A quoted text is clean, whether it is closed or not. -/
theorem clean_quote_cons (hquote : isQuote quote = true) (h : quote ∉ cs) : Clean (quote :: cs) := by
  intro before c behind heq hbefore
  rcases List.cons_eq_append_iff.mp heq with ⟨rfl, hcons⟩ | ⟨inner, rfl, hinner⟩
  · obtain ⟨rfl, -⟩ := List.cons.inj hcons
    exact fun hstray => Bool.eq_false_iff.mp hstray.2.1 hquote
  · rw [openQuote_quote_cons hquote fun hmem => h (by simp [hinner, hmem])] at hbefore
    cases hbefore

/-- What is clean and leaves no quote open has no fault. -/
theorem FirstFault.not_clean {start : Nat} {fault : Located} (h : FirstFault start cs fault) :
    ¬(Clean cs ∧ openQuote cs = none) := by
  intro hclean
  cases h with
  | stray _ hopen hc => exact hclean.1 _ _ _ rfl hopen hc
  | unclosed _ hopen hquote hbehind =>
    have hsome := hclean.2
    rw [openQuote_append hopen, openQuote_quote_cons hquote hbehind] at hsome
    cases hsome

/-- Clean characters in front that leave no quote open do not matter but for the place. -/
theorem FirstFault.append {start : Nat} {fault : Located} (h : FirstFault (start + byteSize cs) ds fault)
    (hclean : Clean cs) (hopen : openQuote cs = none) : FirstFault start (cs ++ ds) fault := by
  cases h with
  | stray hbefore hopened hc =>
    rw [← List.append_assoc, Nat.add_assoc, ← byteSize_append]
    exact .stray (hclean.append hopen hbefore) ((openQuote_append hopen _).trans hopened) hc
  | unclosed hall hopened hquote hbehind =>
    rw [← List.append_assoc, Nat.add_assoc, ← byteSize_append]
    refine .unclosed ?_ ((openQuote_append hopen _).trans hopened) hquote hbehind
    rw [List.append_assoc]
    exact hclean.append hopen hall

end Quotes

/-! ### Lexemes and pieces -/

/-- A token is clean and leaves no quote open. -/
theorem Token.Lexeme.clean {kind : Token.Kind} {text : List Char} (h : Token.Lexeme kind text) :
    Clean text ∧ openQuote text = none := by
  have hplain {cs : List Char} (hquote : ∀ c ∈ cs, isQuote c = false) (hclass : ∀ c ∈ cs, ¬IsStray c) :
      Clean cs ∧ openQuote cs = none := ⟨clean_of_no_stray hclass, openQuote_of_no_quote hquote⟩
  cases h with
  | @mark c hmark =>
    refine hplain (List.forall_mem_singleton.mpr (not_class_of_isMark hmark).1) ?_
    exact List.forall_mem_singleton.mpr fun hstray => Bool.eq_false_iff.mp hstray.1 hmark
  | @string quote hquote content hcontent =>
    have hopen := openQuote_quote_cons hquote hcontent
    refine ⟨(clean_quote_cons hquote hcontent).concat fun hstray => ?_, ?_⟩
    · exact Bool.eq_false_iff.mp hstray.2.1 hquote
    · rw [openQuote, List.foldl_append, ← openQuote, hopen, List.foldl_cons, List.foldl_nil, quoteBehind,
        if_pos rfl]
  | value _ hchars =>
    refine hplain (fun c hc => (not_class_of_isValueChar (hchars c hc)).2.1) fun c hc hstray => ?_
    exact Bool.eq_false_iff.mp hstray.2.2.1 (hchars c hc)
  | operator _ hchars =>
    refine hplain (fun c hc => (not_class_of_isOperatorChar (hchars c hc)).2.1) fun c hc hstray => ?_
    exact Bool.eq_false_iff.mp hstray.2.2.2.1 (hchars c hc)

/-- A blank is clean and leaves no quote open. -/
theorem clean_blank {c : Char} (h : isBlank c = true) : Clean [c] ∧ openQuote [c] = none := by
  refine ⟨clean_of_no_stray ?_, openQuote_of_no_quote ?_⟩
  · exact List.forall_mem_singleton.mpr fun hstray => Bool.eq_false_iff.mp hstray.2.2.2.2 h
  · exact List.forall_mem_singleton.mpr (not_class_of_isBlank h).2.1

/-- A source begins with a fault if its first character is stray, or a quote that does not come again. -/
theorem Piece.firstFault {start : Nat} {c : Char} {cs text : List Char} {fault : CompileFault}
    (h : Piece.first c cs = .fault fault text) : FirstFault start (c :: cs) ⟨fault, .covering start text⟩ := by
  rw [Piece.first] at h
  split at h
  · cases h
  next hmark =>
  split at h
  · next hquote =>
    split at h
    · next hdrop =>
      cases h
      have hbehind : c ∉ cs := fun hmem => by simpa using List.dropWhile_eq_nil_iff.mp hdrop c hmem
      have hfault : FirstFault start ([] ++ c :: cs) ⟨.unterminatedString, .covering start (c :: cs)⟩ :=
        .unclosed (clean_quote_cons hquote hbehind) rfl hquote hbehind
      exact hfault
    · cases h
  next hquote =>
  split at h
  · cases h
  next hvalue =>
  split at h
  · cases h
  next hoperator =>
  split at h
  · cases h
  next hblank =>
  cases h
  have hstray : IsStray c :=
    ⟨Bool.eq_false_iff.mpr hmark, Bool.eq_false_iff.mpr hquote, Bool.eq_false_iff.mpr hvalue,
      Bool.eq_false_iff.mpr hoperator, Bool.eq_false_iff.mpr hblank⟩
  have hfault : FirstFault start ([] ++ c :: cs) ⟨.unexpectedCharacter c, .covering start [c]⟩ :=
    .stray clean_nil rfl hstray
  exact hfault

/-! ### Sources -/

/-- What is scanned is clean and leaves no quote open. -/
theorem Lexes.clean {start : Nat} {cs : List Char} {tokens : List Token} (h : Lexes start cs tokens) :
    Clean cs ∧ openQuote cs = none := by
  induction h with
  | nil => exact ⟨clean_nil, rfl⟩
  | @blank start c rest tokens hc _ ih =>
    obtain ⟨hclean, hopen⟩ := clean_blank hc
    exact ⟨hclean.append hopen ih.1, (openQuote_append hopen rest).trans ih.2⟩
  | @token start kind text rest tokens ht _ _ ih =>
    obtain ⟨hclean, hopen⟩ := ht.clean
    exact ⟨hclean.append hopen ih.1, (openQuote_append hopen rest).trans ih.2⟩

/-- The scanner stops at the first fault. -/
theorem firstFault_of_scan {start : Nat} {cs : List Char} {fault : Located}
    (h : Token.scan start cs = .error fault) : FirstFault start cs fault := by
  induction start, cs using Token.scan.induct with
  | case1 start =>
    rw [Token.scan] at h
    cases h
  | case2 start c cs kind text rest hfirst _ ih =>
    rw [Token.scan_of_token hfirst] at h
    obtain ⟨hlexeme, hcs, _⟩ := Piece.first_eq_token_iff.mp hfirst
    cases hrest : Token.scan (start + byteSize text) rest with
    | ok tokens => rw [hrest] at h; cases h
    | error found =>
      rw [hrest] at h
      cases h
      exact hcs ▸ (ih hrest).append hlexeme.clean.1 hlexeme.clean.2
  | case3 start c cs d rest hfirst _ ih =>
    rw [Token.scan_of_blank hfirst] at h
    obtain ⟨hblank, rfl, rfl⟩ := Piece.first_eq_blank_iff.mp hfirst
    have hbehind : FirstFault (start + byteSize [d]) rest fault := ih h
    exact hbehind.append (clean_blank hblank).1 (clean_blank hblank).2
  | case4 start c cs fault text hfirst =>
    rw [Token.scan_of_fault hfirst] at h
    cases h
    exact Piece.firstFault hfirst

/-- A source is a sequence of blanks and lexemes if it is clean and leaves no quote open. -/
theorem exists_lexes_iff {start : Nat} {cs : List Char} :
    (∃ tokens, Lexes start cs tokens) ↔ Clean cs ∧ openQuote cs = none := by
  refine ⟨fun h => ?_, fun h => ?_⟩
  · obtain ⟨tokens, h⟩ := h
    exact h.clean
  · cases hscan : Token.scan start cs with
    | ok tokens => exact ⟨tokens, scan_eq_ok_iff.mp hscan⟩
    | error fault => exact absurd h (firstFault_of_scan hscan).not_clean

/-- A fault behind a sequence from which no run goes on is one of the whole. -/
theorem Lexes.scan_error {start : Nat} {cs ds : List Char} {tokens : List Token} {fault : Located}
    (h : Lexes start cs tokens) (hends : Ends isRunChar ds)
    (hscan : Token.scan (start + byteSize cs) ds = .error fault) : Token.scan start (cs ++ ds) = .error fault := by
  induction h with
  | nil start => exact hscan
  | @blank start c rest tokens hc _ ih =>
    rw [byteSize_cons, ← Nat.add_assoc] at hscan
    rw [List.cons_append, Token.scan_of_blank (Piece.first_eq_blank_iff.mpr ⟨hc, rfl, rfl⟩), ih hscan]
  | @token start kind text rest tokens ht hrest _ ih =>
    rw [byteSize_append, ← Nat.add_assoc] at hscan
    obtain ⟨c, more, rfl⟩ := List.exists_cons_of_ne_nil ht.ne_nil
    have hbehind : Ends kind.extends (rest ++ ds) :=
      hrest.append (hends.mono fun _ => Token.Kind.isRunChar_of_extends)
    have hfirst : Piece.first c (more ++ (rest ++ ds)) = .token kind (c :: more) (rest ++ ds) :=
      Piece.first_eq_token_iff.mpr ⟨ht, rfl, hbehind⟩
    rw [List.append_assoc, List.cons_append, Token.scan_of_token hfirst, ih hscan]
    rfl

/-- A stray character starts no piece, and is a fault. -/
theorem Piece.first_of_stray {c : Char} (h : IsStray c) (cs : List Char) :
    Piece.first c cs = .fault (.unexpectedCharacter c) [c] := by
  obtain ⟨hmark, hquote, hvalue, hoperator, hblank⟩ := h
  simp [Piece.first, hmark, hquote, hvalue, hoperator, hblank]

/-- A quote that does not come again is a fault, with all that is behind it. -/
theorem Piece.first_of_unclosed {quote : Char} {cs : List Char} (hquote : isQuote quote = true) (h : quote ∉ cs) :
    Piece.first quote cs = .fault .unterminatedString (quote :: cs) := by
  have hdrop : cs.dropWhile (· ≠ quote) = [] :=
    List.dropWhile_eq_nil_iff.mpr fun c hc => decide_eq_true fun heq => h (heq ▸ hc)
  rw [Piece.first, if_neg (Bool.eq_false_iff.mp (not_class_of_isQuote hquote).1), if_pos hquote, hdrop]

/-- The scanner stops exactly at the first fault. -/
theorem scan_eq_error_iff {start : Nat} {cs : List Char} {fault : Located} :
    Token.scan start cs = .error fault ↔ FirstFault start cs fault := by
  refine ⟨firstFault_of_scan, fun h => ?_⟩
  cases h with
  | @stray before behind c hclean hopen hc =>
    obtain ⟨tokens, hlexes⟩ := exists_lexes_iff.mpr ⟨hclean, hopen⟩
    have hends : Ends isRunChar (c :: behind) :=
      ends_cons (Bool.or_eq_false_iff.mpr ⟨hc.2.2.1, hc.2.2.2.1⟩) behind
    exact hlexes.scan_error hends (Token.scan_of_fault (Piece.first_of_stray hc behind))
  | @unclosed before behind quote hclean hopen hquote hbehind =>
    obtain ⟨tokens, hlexes⟩ := exists_lexes_iff.mpr ⟨hclean.of_append, hopen⟩
    obtain ⟨_, hvalue, hoperator, _⟩ := not_class_of_isQuote hquote
    have hends : Ends isRunChar (quote :: behind) :=
      ends_cons (Bool.or_eq_false_iff.mpr ⟨hvalue, hoperator⟩) behind
    exact hlexes.scan_error hends (Token.scan_of_fault (Piece.first_of_unclosed hquote hbehind))

/-! ### Places -/

/-- A token is a part of a text that is not empty, and its span is the place of that part. -/
def Token.LiesIn (whole : String) (t : Token) : Prop :=
  ∃ before behind, whole.toList = before ++ t.text.toList ++ behind ∧
    t.span = .covering (byteSize before) t.text.toList ∧ t.span.start < t.span.stop

/-- Tokens are lexemes and lie where their spans say, one behind the other. -/
theorem Lexes.places {front cs : List Char} {tokens : List Token} (h : Lexes (byteSize front) cs tokens) :
    (∀ t ∈ tokens, Token.Lexeme t.kind t.text.toList ∧ t.LiesIn (String.ofList (front ++ cs)) ∧
      byteSize front ≤ t.span.start) ∧ tokens.Pairwise fun t t' => t.span.stop ≤ t'.span.start := by
  generalize hstart : byteSize front = start at h
  induction h generalizing front with
  | nil => exact ⟨List.forall_mem_nil _, .nil⟩
  | @blank start c rest tokens hc _ ih =>
    obtain ⟨htokens, hordered⟩ := @ih (front ++ [c]) (by simp [hstart])
    refine ⟨fun t ht => ?_, hordered⟩
    obtain ⟨hlexeme, hlies, hbehind⟩ := htokens t ht
    rw [List.append_assoc] at hlies
    exact ⟨hlexeme, hlies, (Nat.le_add_right _ _).trans hbehind⟩
  | @token start kind text rest tokens ht _ _ ih =>
    obtain ⟨htokens, hordered⟩ := @ih (front ++ text) (by simp [hstart])
    refine ⟨List.forall_mem_cons.mpr ⟨⟨?_, ?_, ?_⟩, fun t hmem => ?_⟩,
      List.pairwise_cons.mpr ⟨fun t hmem => ?_, hordered⟩⟩
    · rwa [String.toList_ofList]
    · refine ⟨front, rest, by simp, by simp [hstart], ?_⟩
      exact Nat.lt_add_of_pos_right (byteSize_pos ht.ne_nil)
    · exact Nat.le_refl _
    · obtain ⟨hlexeme, hlies, hbehind⟩ := htokens t hmem
      rw [List.append_assoc] at hlies
      exact ⟨hlexeme, hlies, (Nat.le_add_right _ _).trans hbehind⟩
    · exact (htokens t hmem).2.2

/-! ### Spaces between the tokens -/

/-- The texts of tokens with single spaces between them. -/
def spaced (tokens : List Token) : String :=
  String.intercalate " " (tokens.map Token.text)

/-- Lexemes with single spaces between them have the same words again. -/
theorem exists_lexes_spaced {tokens : List Token} (h : ∀ t ∈ tokens, Token.Lexeme t.kind t.text.toList)
    (start : Nat) : ∃ tokens', Lexes start (spaced tokens).toList tokens' ∧
      tokens'.map Token.word = tokens.map Token.word := by
  rw [spaced, String.toList_intercalate, List.map_map]
  induction tokens generalizing start with
  | nil => exact ⟨[], .nil start, rfl⟩
  | cons t rest ih =>
    obtain ⟨ht, hrest⟩ := List.forall_mem_cons.mp h
    cases rest with
    | nil =>
      refine ⟨[⟨t.kind, String.ofList t.text.toList, .covering start t.text.toList⟩], ?_, by simp [Token.word]⟩
      simpa using lexes_lexeme ht start
    | cons t' more =>
      obtain ⟨tokens', hlexes, hwords⟩ := ih hrest (start + byteSize t.text.toList + ' '.utf8Size)
      have hspace : Lexes (start + byteSize t.text.toList)
          (' ' :: [' '].intercalate ((t' :: more).map (String.toList ∘ Token.text))) tokens' :=
        .blank rfl hlexes
      have hends : Ends t.kind.extends (' ' :: [' '].intercalate ((t' :: more).map (String.toList ∘ Token.text))) :=
        (ends_cons (p := isRunChar) (by decide) _).mono fun _ => Token.Kind.isRunChar_of_extends
      refine ⟨_, .token ht hends hspace, ?_⟩
      simp [hwords, Token.word]

/-- What a source is compiled to, or the fault in it, wherever it lies. -/
def treeOrFault (source : String) : Except CompileFault Tree :=
  ((compile source).mapError CompileError.fault).map Expression.tree

/-- What tokens come of decides what the source is compiled to, or which fault is in it. -/
theorem treeOrFault_of_words {source source' : String} {tokens tokens' : List Token}
    (htokens : tokenize source = .ok tokens) (htokens' : tokenize source' = .ok tokens')
    (hwords : tokens.map Token.word = tokens'.map Token.word) : treeOrFault source = treeOrFault source' := by
  have hcompile {source : String} {tokens : List Token} (h : tokenize source = .ok tokens) :
      treeOrFault source = (treeOf (byteSize source.toList) tokens).mapError Located.fault := by
    rw [treeOrFault, compile, h]
    change (((treeOf (byteSize source.toList) tokens).mapError _ >>= fun tree => _).mapError _).map _ = _
    cases treeOf (byteSize source.toList) tokens <;> rfl
  rw [hcompile htokens, hcompile htokens']
  exact (treeOf_of_words hwords _ _).eq

/-- The tokens of a source are the lexemes that it consists of, with blanks between them: each is at its place, is
not empty and ends before the next begins. A source that does not so consist of lexemes has a fault, which is its
first one. And the tokens of a source with single spaces between them are the same words again, and are compiled
to the same tree, or have the same fault. -/
theorem tokenize_exactly (source : String) :
    (∀ tokens, tokenize source = .ok tokens ↔ Lexes 0 source.toList tokens) ∧
      (∀ error, tokenize source = .error error ↔
        ∃ fault, FirstFault 0 source.toList fault ∧ error = fault.inText source) ∧
      ∀ tokens, tokenize source = .ok tokens →
        (∀ t ∈ tokens, t.LiesIn source) ∧ tokens.Pairwise (fun t t' => t.span.stop ≤ t'.span.start) ∧
          (∃ tokens', tokenize (spaced tokens) = .ok tokens' ∧ tokens'.map Token.word = tokens.map Token.word) ∧
          treeOrFault (spaced tokens) = treeOrFault source := by
  refine ⟨fun tokens => tokenize_eq_ok_iff, fun error => ?_, fun tokens htokens => ?_⟩
  · rw [tokenize]
    simp only [← scan_eq_error_iff]
    cases Token.scan 0 source.toList with
    | ok tokens => simp [Except.mapError]
    | error fault => simp [Except.mapError, eq_comm]
  · have hlexes : Lexes (byteSize []) source.toList tokens := tokenize_eq_ok_iff.mp htokens
    obtain ⟨hplaces, hordered⟩ := hlexes.places
    obtain ⟨tokens', hspaced, hwords⟩ := exists_lexes_spaced (fun t ht => (hplaces t ht).1) 0
    have htokens' := tokenize_eq_ok_iff.mpr hspaced
    refine ⟨fun t ht => ?_, hordered, ⟨tokens', htokens', hwords⟩, treeOrFault_of_words htokens' htokens hwords⟩
    simpa using (hplaces t ht).2.1

end ReactiveTemplate.Expression
