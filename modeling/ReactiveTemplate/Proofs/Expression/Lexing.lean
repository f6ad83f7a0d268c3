import Mathlib
import ReactiveTemplate.Proofs.Expression.Parsing
import ReactiveTemplate.Proofs.Text.Runs

/-!
# The lexical grammar

A source is a sequence of blanks and lexemes, where a run of value characters or of operator characters
does not go on behind its lexeme. The scanner accepts exactly these sequences, and its tokens are the
lexemes with their places. Sequences can be split and joined, and their words do not depend on where the
source begins or on the blanks around it.
-/

namespace ReactiveTemplate.Expression

open ReactiveTemplate.Text

/-! ### Classes of characters -/

/-- A parenthesis belongs to no other class. -/
theorem not_class_of_isMark {c : Char} (h : isMark c = true) :
    isQuote c = false ∧ isValueChar c = false ∧ isOperatorChar c = false ∧ isBlank c = false := by
  simp only [isMark, Bool.or_eq_true, beq_iff_eq] at h
  rcases h with rfl | rfl <;> decide

/-- A quote belongs to no other class. -/
theorem not_class_of_isQuote {c : Char} (h : isQuote c = true) :
    isMark c = false ∧ isValueChar c = false ∧ isOperatorChar c = false ∧ isBlank c = false := by
  simp only [isQuote, Bool.or_eq_true, beq_iff_eq] at h
  rcases h with rfl | rfl <;> decide

/-- A character of operators belongs to no other class. -/
theorem not_class_of_isOperatorChar {c : Char} (h : isOperatorChar c = true) :
    isMark c = false ∧ isQuote c = false ∧ isValueChar c = false ∧ isBlank c = false := by
  simp only [isOperatorChar, Bool.or_eq_true, beq_iff_eq] at h
  rcases h with (((((((rfl | rfl) | rfl) | rfl) | rfl) | rfl) | rfl) | rfl) <;> decide

/-- A character of values belongs to no other class. -/
theorem not_class_of_isValueChar {c : Char} (h : isValueChar c = true) :
    isMark c = false ∧ isQuote c = false ∧ isOperatorChar c = false ∧ isBlank c = false := by
  refine ⟨?_, ?_, ?_, isBlank_eq_false_of_isValueChar h⟩ <;> refine Bool.eq_false_iff.mpr fun hother => ?_
  · exact Bool.eq_false_iff.mp (not_class_of_isMark hother).2.1 h
  · exact Bool.eq_false_iff.mp (not_class_of_isQuote hother).2.1 h
  · exact Bool.eq_false_iff.mp (not_class_of_isOperatorChar hother).2.2.1 h

/-- A blank belongs to no other class. -/
theorem not_class_of_isBlank {c : Char} (h : isBlank c = true) :
    isMark c = false ∧ isQuote c = false ∧ isValueChar c = false ∧ isOperatorChar c = false := by
  refine ⟨?_, ?_, ?_, ?_⟩ <;> refine Bool.eq_false_iff.mpr fun hother => ?_
  · exact Bool.eq_false_iff.mp (not_class_of_isMark hother).2.2.2 h
  · exact Bool.eq_false_iff.mp (not_class_of_isQuote hother).2.2.2 h
  · exact Bool.eq_false_iff.mp (not_class_of_isValueChar hother).2.2.2 h
  · exact Bool.eq_false_iff.mp (not_class_of_isOperatorChar hother).2.2.2 h

/-- Characters of values and operators, which may make a run longer. -/
def isRunChar (c : Char) : Bool :=
  isValueChar c || isOperatorChar c

namespace Token

/-- The characters that would make a token of some kind longer. -/
def Kind.extends : Kind → Char → Bool
  | .value => isValueChar
  | .operator => isOperatorChar
  | .string | .mark => fun _ => false

/-- Only characters of runs make a token longer. -/
theorem Kind.isRunChar_of_extends {kind : Kind} {c : Char} (h : kind.extends c = true) :
    isRunChar c = true := by
  cases kind with
  | value => exact Bool.or_eq_true_iff.mpr (Or.inl h)
  | operator => exact Bool.or_eq_true_iff.mpr (Or.inr h)
  | string => contradiction
  | mark => contradiction

/-- Characters that are a token of some kind. -/
inductive Lexeme : Kind → List Char → Prop where
  | mark {c : Char} (h : isMark c = true) : Lexeme .mark [c]
  | string {quote : Char} (hq : isQuote quote = true) {content : List Char} (h : quote ∉ content) :
      Lexeme .string (quote :: content ++ [quote])
  | value {cs : List Char} (hne : cs ≠ []) (h : ∀ c ∈ cs, isValueChar c = true) : Lexeme .value cs
  | operator {cs : List Char} (hne : cs ≠ []) (h : ∀ c ∈ cs, isOperatorChar c = true) :
      Lexeme .operator cs

namespace Lexeme

variable {kind : Kind} {text : List Char}

/-- A token is not empty. -/
theorem ne_nil (h : Lexeme kind text) : text ≠ [] := by
  cases h with
  | mark | string => simp
  | value hne | operator hne => exact hne

/-- A token starts with a character that is not blank. -/
theorem first_not_blank (h : Lexeme kind text) : Ends isBlank text := by
  intro c hc
  cases h with
  | mark hmark =>
    rw [List.head?_cons, Option.mem_some_iff] at hc
    exact hc ▸ (not_class_of_isMark hmark).2.2.2
  | string hq =>
    rw [List.cons_append, List.head?_cons, Option.mem_some_iff] at hc
    exact hc ▸ (not_class_of_isQuote hq).2.2.2
  | value _ hchars => exact (not_class_of_isValueChar (hchars c (List.mem_of_mem_head? hc))).2.2.2
  | operator _ hchars => exact (not_class_of_isOperatorChar (hchars c (List.mem_of_mem_head? hc))).2.2.2

/-- A token ends with a character that is not blank. -/
theorem last_not_blank (h : Lexeme kind text) : ∀ c ∈ text.getLast?, isBlank c = false := by
  intro c hc
  cases h with
  | mark hmark =>
    rw [List.getLast?_singleton, Option.mem_some_iff] at hc
    exact hc ▸ (not_class_of_isMark hmark).2.2.2
  | string hq =>
    rw [List.getLast?_append, List.getLast?_singleton, Option.some_or, Option.mem_some_iff] at hc
    exact hc ▸ (not_class_of_isQuote hq).2.2.2
  | value _ hchars => exact (not_class_of_isValueChar (hchars c (List.mem_of_getLast? hc))).2.2.2
  | operator _ hchars => exact (not_class_of_isOperatorChar (hchars c (List.mem_of_getLast? hc))).2.2.2

/-- Only an operator starts with a character of operators. -/
theorem kind_eq_operator {c : Char} (h : Lexeme kind (c :: text)) (hc : isOperatorChar c = true) :
    kind = .operator := by
  obtain ⟨hmark, hquote, hvalue, _⟩ := not_class_of_isOperatorChar hc
  generalize hall : c :: text = all at h
  cases h with
  | mark h =>
    rw [← (List.cons.inj hall).1, hmark] at h
    contradiction
  | string hq =>
    rw [← (List.cons.inj hall).1, hquote] at hq
    contradiction
  | value _ h =>
    rw [h c (hall ▸ List.mem_cons_self)] at hvalue
    contradiction
  | operator => rfl

end Lexeme

end Token

open Token

/-! ### The first piece -/

/-- A character of a class with the run of the class behind it, and what is left. -/
theorem run_of_first {p : Char → Bool} {c : Char} (hc : p c = true) (cs : List Char) :
    (∀ d ∈ c :: cs.takeWhile p, p d = true) ∧ c :: cs = c :: cs.takeWhile p ++ cs.dropWhile p ∧
      Ends p (cs.dropWhile p) := by
  refine ⟨List.forall_mem_cons.mpr ⟨hc, fun d hd => List.mem_takeWhile_imp hd⟩, ?_, ends_dropWhile p cs⟩
  rw [List.cons_append, List.takeWhile_append_dropWhile]

/-- The token that a source begins with is one, and as long as it can be. -/
theorem Piece.lexeme_of_first {c : Char} {cs text rest : List Char} {kind : Kind}
    (h : Piece.first c cs = .token kind text rest) :
    Lexeme kind text ∧ c :: cs = text ++ rest ∧ Ends kind.extends rest := by
  rw [Piece.first] at h
  split at h
  · next hmark =>
    cases h
    exact ⟨.mark hmark, rfl, fun _ _ => rfl⟩
  split at h
  · next hquote =>
    split at h
    · cases h
    next d more hdrop =>
    cases h
    have hd : d = c := by
      have hends := ends_dropWhile (· ≠ c) cs d (by rw [hdrop]; rfl)
      simpa using hends
    subst hd
    refine ⟨.string hquote fun hmem => ?_, ?_, fun _ _ => rfl⟩
    · simpa using List.mem_takeWhile_imp hmem
    · rw [List.cons_append, List.cons_append, List.append_assoc, List.singleton_append, ← hdrop,
        List.takeWhile_append_dropWhile]
  split at h
  · next hvalue =>
    cases h
    obtain ⟨hchars, hwhole, hends⟩ := run_of_first hvalue cs
    exact ⟨.value (List.cons_ne_nil _ _) hchars, hwhole, hends⟩
  split at h
  · next hoperator =>
    cases h
    obtain ⟨hchars, hwhole, hends⟩ := run_of_first hoperator cs
    exact ⟨.operator (List.cons_ne_nil _ _) hchars, hwhole, hends⟩
  split at h <;> cases h

/-- What begins with a token that is as long as it can be is cut off behind it. -/
theorem Piece.first_of_lexeme {c : Char} {cs text rest : List Char} {kind : Kind} (hlexeme : Lexeme kind text)
    (hcs : c :: cs = text ++ rest) (hends : Ends kind.extends rest) :
    Piece.first c cs = .token kind text rest := by
  cases hlexeme with
  | mark hmark =>
    rw [List.singleton_append, List.cons.injEq] at hcs
    obtain ⟨rfl, rfl⟩ := hcs
    rw [first, if_pos hmark]
  | @string quote hq content hcontent =>
    rw [List.cons_append, List.cons_append, List.cons.injEq, List.append_assoc] at hcs
    obtain ⟨rfl, rfl⟩ := hcs
    have htaken : ∀ d ∈ content, decide (d ≠ c) = true := by
      intro d hd
      exact decide_eq_true fun heq => hcontent (heq ▸ hd)
    have hquote : Ends (fun d => decide (d ≠ c)) ([c] ++ rest) := ends_cons (by simp) _
    rw [first, if_neg (Bool.eq_false_iff.mp (not_class_of_isQuote hq).1), if_pos hq,
      takeWhile_append_of_ends htaken hquote, dropWhile_append_of_ends htaken hquote]
    rfl
  | value hne hchars =>
    obtain ⟨d, more, rfl⟩ := List.exists_cons_of_ne_nil hne
    rw [List.cons_append, List.cons.injEq] at hcs
    obtain ⟨rfl, rfl⟩ := hcs
    obtain ⟨hvalue, hmore⟩ := List.forall_mem_cons.mp hchars
    obtain ⟨hmark, hquote, _⟩ := not_class_of_isValueChar hvalue
    rw [first, if_neg (Bool.eq_false_iff.mp hmark), if_neg (Bool.eq_false_iff.mp hquote), if_pos hvalue,
      takeWhile_append_of_ends hmore hends, dropWhile_append_of_ends hmore hends]
  | operator hne hchars =>
    obtain ⟨d, more, rfl⟩ := List.exists_cons_of_ne_nil hne
    rw [List.cons_append, List.cons.injEq] at hcs
    obtain ⟨rfl, rfl⟩ := hcs
    obtain ⟨hoperator, hmore⟩ := List.forall_mem_cons.mp hchars
    obtain ⟨hmark, hquote, hvalue, _⟩ := not_class_of_isOperatorChar hoperator
    rw [first, if_neg (Bool.eq_false_iff.mp hmark), if_neg (Bool.eq_false_iff.mp hquote),
      if_neg (Bool.eq_false_iff.mp hvalue), if_pos hoperator, takeWhile_append_of_ends hmore hends,
      dropWhile_append_of_ends hmore hends]

/-- A source begins with a token that is as long as it can be. -/
theorem Piece.first_eq_token_iff {c : Char} {cs text rest : List Char} {kind : Kind} :
    Piece.first c cs = .token kind text rest ↔
      Lexeme kind text ∧ c :: cs = text ++ rest ∧ Ends kind.extends rest :=
  ⟨lexeme_of_first, fun ⟨hlexeme, hcs, hends⟩ => first_of_lexeme hlexeme hcs hends⟩

/-- A source begins with a blank as such. -/
theorem Piece.first_eq_blank_iff {c d : Char} {cs rest : List Char} :
    Piece.first c cs = .blank d rest ↔ isBlank c = true ∧ d = c ∧ rest = cs := by
  constructor
  · intro h
    rw [Piece.first] at h
    repeat' split at h
    all_goals cases h
    next hblank => exact ⟨hblank, rfl, rfl⟩
  · intro h
    obtain ⟨hblank, rfl, rfl⟩ := h
    obtain ⟨hmark, hquote, hvalue, hoperator⟩ := not_class_of_isBlank hblank
    rw [first, if_neg (Bool.eq_false_iff.mp hmark), if_neg (Bool.eq_false_iff.mp hquote),
      if_neg (Bool.eq_false_iff.mp hvalue), if_neg (Bool.eq_false_iff.mp hoperator), if_pos hblank]

namespace Token

variable {start : Nat} {c d : Char} {cs text rest : List Char} {kind : Kind}

/-- The tokens of a source that begins with a token. -/
theorem scan_of_token (h : Piece.first c cs = .token kind text rest) :
    scan start (c :: cs) = scan (start + byteSize text) rest >>= fun tokens =>
      pure (⟨kind, String.ofList text, .covering start text⟩ :: tokens) := by
  rw [scan]
  split
  · next h' => cases h.symm.trans h'; rfl
  · next h' => cases h.symm.trans h'
  · next h' => cases h.symm.trans h'

/-- The tokens of a source that begins with a blank. -/
theorem scan_of_blank (h : Piece.first c cs = .blank d rest) :
    scan start (c :: cs) = scan (start + d.utf8Size) rest := by
  rw [scan]
  split
  · next h' => cases h.symm.trans h'
  · next h' => cases h.symm.trans h'; rfl
  · next h' => cases h.symm.trans h'

/-- The error of a source that begins with a fault. -/
theorem scan_of_fault {fault : CompileFault} (h : Piece.first c cs = .fault fault text) :
    scan start (c :: cs) = .error ⟨fault, .covering start text⟩ := by
  rw [scan]
  split
  · next h' => cases h.symm.trans h'
  · next h' => cases h.symm.trans h'
  · next h' => cases h.symm.trans h'; rfl

end Token

/-! ### Sequences of blanks and lexemes -/

/-- The characters, which begin at `start`, are blanks and the lexemes of the tokens. -/
inductive Lexes : (start : Nat) → List Char → List Token → Prop where
  | nil (start : Nat) : Lexes start [] []
  | blank {start : Nat} {c : Char} {rest : List Char} {tokens : List Token} (hc : isBlank c = true)
      (h : Lexes (start + c.utf8Size) rest tokens) : Lexes start (c :: rest) tokens
  | token {start : Nat} {kind : Kind} {text rest : List Char} {tokens : List Token}
      (ht : Lexeme kind text) (hends : Ends kind.extends rest)
      (h : Lexes (start + byteSize text) rest tokens) :
      Lexes start (text ++ rest) (⟨kind, String.ofList text, .covering start text⟩ :: tokens)

/-- The scanner accepts exactly the sequences of blanks and lexemes, and gives their tokens. -/
theorem scan_eq_ok_iff {start : Nat} {cs : List Char} {tokens : List Token} :
    Token.scan start cs = .ok tokens ↔ Lexes start cs tokens := by
  constructor
  · intro h
    induction start, cs using Token.scan.induct generalizing tokens with
    | case1 start =>
      rw [Token.scan] at h
      cases h
      exact .nil start
    | case2 start c cs kind text rest hfirst _ ih =>
      rw [Token.scan_of_token hfirst] at h
      obtain ⟨more, hmore, hall⟩ := ok_of_bind h
      cases hall
      obtain ⟨hlexeme, hcs, hends⟩ := Piece.first_eq_token_iff.mp hfirst
      exact hcs ▸ .token hlexeme hends (ih hmore)
    | case3 start c cs d rest hfirst _ ih =>
      rw [Token.scan_of_blank hfirst] at h
      obtain ⟨hblank, rfl, rfl⟩ := Piece.first_eq_blank_iff.mp hfirst
      exact .blank hblank (ih h)
    | case4 start c cs fault text hfirst =>
      rw [Token.scan_of_fault hfirst] at h
      cases h
  · intro h
    induction h with
    | nil start => rw [Token.scan]
    | blank hc _ ih => rw [Token.scan_of_blank (Piece.first_eq_blank_iff.mpr ⟨hc, rfl, rfl⟩), ih]
    | @token start kind text rest tokens ht hends _ ih =>
      obtain ⟨c, more, rfl⟩ := List.exists_cons_of_ne_nil ht.ne_nil
      have hfirst : Piece.first c (more ++ rest) = .token kind (c :: more) rest :=
        Piece.first_eq_token_iff.mpr ⟨ht, rfl, hends⟩
      rw [List.cons_append, Token.scan_of_token hfirst, ih]
      rfl

/-- Blanks hold no tokens. -/
theorem lexes_blanks {blanks : List Char} (h : ∀ c ∈ blanks, isBlank c = true) (start : Nat) :
    Lexes start blanks [] := by
  induction blanks generalizing start with
  | nil => exact .nil start
  | cons c rest ih =>
    obtain ⟨hc, hrest⟩ := List.forall_mem_cons.mp h
    exact .blank hc (ih hrest _)

/-- Blanks are no characters of runs. -/
theorem ends_isRunChar_of_blanks {blanks : List Char} (h : ∀ c ∈ blanks, isBlank c = true) :
    Ends isRunChar blanks := by
  intro c hc
  obtain ⟨_, _, hvalue, hoperator⟩ := not_class_of_isBlank (h c (List.mem_of_mem_head? hc))
  rw [isRunChar, hvalue, hoperator]
  rfl

/-- A token is read alone. -/
theorem lexes_lexeme {kind : Token.Kind} {text : List Char} (h : Token.Lexeme kind text) (start : Nat) :
    Lexes start text [⟨kind, String.ofList text, .covering start text⟩] := by
  simpa using Lexes.token h (ends_nil _) (.nil (start + byteSize text))

namespace Lexes

variable {start : Nat} {cs ds blanks : List Char} {tokens more : List Token} {t : Token}

/-- Without tokens there are only blanks. -/
theorem blanks_of_nil (h : Lexes start cs []) : ∀ c ∈ cs, isBlank c = true := by
  generalize hnone : ([] : List Token) = none at h
  induction h with
  | nil => simp
  | blank hc _ ih => exact List.forall_mem_cons.mpr ⟨hc, ih hnone⟩
  | token => contradiction

/-- The first token stands behind blanks, and the others behind it. -/
theorem first (h : Lexes start cs (t :: tokens)) : ∃ blanks rest, (∀ c ∈ blanks, isBlank c = true) ∧
    Lexeme t.kind t.text.toList ∧ cs = blanks ++ t.text.toList ++ rest ∧ Lexes t.span.stop rest tokens := by
  generalize hall : t :: tokens = all at h
  induction h with
  | nil => contradiction
  | @blank start c rest all hc _ ih =>
    obtain ⟨blanks, behind, hblanks, hlexeme, rfl, hrest⟩ := ih hall
    exact ⟨c :: blanks, behind, List.forall_mem_cons.mpr ⟨hc, hblanks⟩, hlexeme, rfl, hrest⟩
  | @token start kind text rest all ht _ h =>
    cases hall
    refine ⟨[], rest, by simp, ?_, ?_, h⟩
    · rwa [String.toList_ofList]
    · rw [String.toList_ofList, List.nil_append]

/-- Two sequences are one if no run goes on from the first into the second. -/
theorem append (h : Lexes start cs tokens) (hends : Ends isRunChar ds)
    (hmore : Lexes (start + byteSize cs) ds more) : Lexes start (cs ++ ds) (tokens ++ more) := by
  induction h with
  | nil start => exact hmore
  | blank hc _ ih => exact .blank hc (ih (by rwa [Nat.add_assoc]))
  | @token start kind text rest tokens ht hrest _ ih =>
    rw [List.append_assoc]
    refine .token ht (hrest.append (hends.mono fun _ => Kind.isRunChar_of_extends)) (ih ?_)
    rwa [Nat.add_assoc, ← byteSize_append]

/-- Blanks are added in front. -/
theorem blanks_append (hblanks : ∀ c ∈ blanks, isBlank c = true) (h : Lexes (start + byteSize blanks) cs tokens) :
    Lexes start (blanks ++ cs) tokens := by
  induction blanks generalizing start with
  | nil => exact h
  | cons c rest ih =>
    obtain ⟨hc, hrest⟩ := List.forall_mem_cons.mp hblanks
    exact .blank hc (ih hrest (by rwa [Nat.add_assoc, ← byteSize_cons]))

/-- Blanks are added behind. -/
theorem append_blanks (h : Lexes start cs tokens) (hblanks : ∀ c ∈ blanks, isBlank c = true) :
    Lexes start (cs ++ blanks) tokens := by
  simpa using h.append (ends_isRunChar_of_blanks hblanks) (lexes_blanks hblanks _)

/-- A sequence is cut between any two of its tokens. -/
theorem split (h : Lexes start cs (tokens ++ more)) : ∃ before behind, cs = before ++ behind ∧
    Lexes start before tokens ∧ Lexes (start + byteSize before) behind more := by
  generalize hall : tokens ++ more = all at h
  induction h generalizing tokens with
  | nil start =>
    obtain ⟨rfl, rfl⟩ := List.append_eq_nil_iff.mp hall
    exact ⟨[], [], rfl, .nil start, .nil _⟩
  | @blank start c rest all hc _ ih =>
    obtain ⟨before, behind, rfl, hbefore, hbehind⟩ := ih hall
    refine ⟨c :: before, behind, rfl, .blank hc hbefore, ?_⟩
    rwa [byteSize_cons, ← Nat.add_assoc]
  | @token start kind text rest all ht hends hrest ih =>
    cases tokens with
    | nil =>
      rw [List.nil_append] at hall
      exact ⟨[], text ++ rest, rfl, .nil start, hall ▸ .token ht hends hrest⟩
    | cons t tokens =>
      rw [List.cons_append, List.cons.injEq] at hall
      obtain ⟨rfl, hall⟩ := hall
      obtain ⟨before, behind, rfl, hbefore, hbehind⟩ := ih hall
      refine ⟨text ++ before, behind, (List.append_assoc _ _ _).symm, .token ht hends.of_append hbefore, ?_⟩
      rwa [byteSize_append, ← Nat.add_assoc]

/-- Blanks in front hold no tokens. -/
theorem of_blanks_append (h : Lexes start (blanks ++ cs) tokens) (hblanks : ∀ c ∈ blanks, isBlank c = true) :
    Lexes (start + byteSize blanks) cs tokens := by
  induction blanks generalizing start with
  | nil => exact h
  | cons c rest ih =>
    obtain ⟨hc, hrest⟩ := List.forall_mem_cons.mp hblanks
    rw [byteSize_cons, ← Nat.add_assoc]
    refine ih ?_ hrest
    rwa [List.cons_append, ← scan_eq_ok_iff, scan_of_blank (Piece.first_eq_blank_iff.mpr ⟨hc, rfl, rfl⟩),
      scan_eq_ok_iff] at h

/-- Blanks behind hold no tokens. -/
theorem of_append_blanks (h : Lexes start (cs ++ blanks) tokens) (hblanks : ∀ c ∈ blanks, isBlank c = true) :
    Lexes start cs tokens := by
  generalize hall : cs ++ blanks = all at h
  induction h generalizing cs with
  | nil start =>
    obtain ⟨rfl, rfl⟩ := List.append_eq_nil_iff.mp hall
    exact .nil start
  | @blank start c rest tokens hc hrest ih =>
    cases cs with
    | nil =>
      -- All that is left are blanks, so there are no tokens.
      rw [List.nil_append] at hall
      have hnone := scan_eq_ok_iff.mpr (lexes_blanks (hall ▸ hblanks) start)
      rw [scan_eq_ok_iff.mpr (.blank hc hrest), Except.ok.injEq] at hnone
      exact hnone ▸ .nil start
    | cons d cs =>
      rw [List.cons_append, List.cons.injEq] at hall
      obtain ⟨rfl, hall⟩ := hall
      exact .blank hc (ih hall)
  | @token start kind text rest tokens ht hends _ ih =>
    rcases List.append_eq_append_iff.mp hall with ⟨inner, htext, hblank⟩ | ⟨behind, hcs, hrest⟩
    · rcases List.eq_nil_or_concat inner with rfl | ⟨before, last, rfl⟩
      · rw [List.append_nil] at htext
        subst htext
        have hnil := @ih [] hblank
        simpa using Lexes.token ht (ends_nil _) hnil
      -- A token does not end in a blank.
      · have hlast : last ∈ text.getLast? := by
          rw [htext, List.concat_eq_append, ← List.append_assoc, List.getLast?_append]
          rfl
        have hmem : last ∈ blanks := by
          rw [hblank]
          simp
        have hblank := ht.last_not_blank last hlast
        rw [hblanks last hmem] at hblank
        contradiction
    · subst hcs
      exact .token ht (hrest ▸ hends).of_append (ih hrest.symm)

/-- The tokens of a trimmed source. -/
theorem trim (h : Lexes start cs tokens) :
    Lexes (start + byteSize (cs.takeWhile isBlank)) (Text.trim cs) tokens := by
  obtain ⟨behind, hbehind, hcs⟩ := exists_blanks_of_trim cs
  rw [hcs, List.append_assoc] at h
  exact (h.of_blanks_append fun c hc => List.mem_takeWhile_imp hc).of_append_blanks hbehind

end Lexes

/-! ### Words -/

/-- A token without its place. -/
def Token.word (t : Token) : Kind × String :=
  (t.kind, t.text)

/-- A sequence has the same words wherever it begins. -/
theorem Lexes.relocate {start : Nat} {cs : List Char} {tokens : List Token} (h : Lexes start cs tokens)
    (start' : Nat) : ∃ tokens', Lexes start' cs tokens' ∧ tokens'.map Token.word = tokens.map Token.word := by
  induction h generalizing start' with
  | nil => exact ⟨[], .nil start', rfl⟩
  | blank hc _ ih =>
    obtain ⟨tokens', hlexes, hwords⟩ := ih (start' + Char.utf8Size _)
    exact ⟨tokens', .blank hc hlexes, hwords⟩
  | @token start kind text rest tokens ht hends _ ih =>
    obtain ⟨tokens', hlexes, hwords⟩ := ih (start' + byteSize text)
    refine ⟨_, .token ht hends hlexes, ?_⟩
    rw [List.map_cons, List.map_cons, hwords]
    rfl

/-- Derivations and trees depend on words only. -/
theorem Derives.of_words {symbol : Nonterminal} {tokens tokens' : List Token} {phrase : Phrase}
    (h : Derives symbol tokens phrase) (hwords : tokens'.map Token.word = tokens.map Token.word) :
    ∃ phrase', Derives symbol tokens' phrase' ∧ phrase'.tree? = phrase.tree? := by
  have fields {t t' : Token} (heq : t'.word = t.word) : t'.kind = t.kind ∧ t'.text = t.text :=
    Prod.ext_iff.mp heq
  induction h generalizing tokens' with
  | word ht =>
    obtain ⟨t', hcons, heq⟩ := List.map_eq_singleton_iff.mp hwords
    obtain ⟨hkind, htext⟩ := fields heq
    refine ⟨.word t', hcons ▸ .word ?_, ?_⟩
    · rwa [Token.IsWord, hkind]
    · simp only [Phrase.tree?, Token.tree?, hkind, htext]
  | group ho _ hc ih =>
    rw [List.cons_append, List.map_cons, List.map_append, List.map_singleton] at hwords
    obtain ⟨opening', rest, rfl, hopening, hrest⟩ := List.map_eq_cons_iff.mp hwords
    obtain ⟨inner, last, rfl, hinner, hlast⟩ := List.map_eq_append_iff.mp hrest
    obtain ⟨closing', rfl, hclosing⟩ := List.map_eq_singleton_iff.mp hlast
    obtain ⟨phrase', hderives, htree⟩ := ih hinner
    refine ⟨phrase', .group ?_ hderives ?_, htree⟩
    · rwa [Token.IsOpening, (fields hopening).1, (fields hopening).2]
    · rwa [Token.IsClosing, (fields hclosing).1, (fields hclosing).2]
  | not ht _ ih =>
    obtain ⟨t', rest, rfl, heq, hrest⟩ := List.map_eq_cons_iff.mp hwords
    obtain ⟨phrase', hderives, htree⟩ := ih hrest
    refine ⟨.not phrase', .not ?_ hderives, ?_⟩
    · rwa [Token.IsNegation, (fields heq).1, (fields heq).2]
    · rw [Phrase.tree?, htree, Phrase.tree?]
  | operand _ ih =>
    obtain ⟨phrase', hderives, htree⟩ := ih hwords
    exact ⟨phrase', .operand hderives, htree⟩
  | binary _ ht _ ihl ihr =>
    rw [List.map_append, List.map_cons] at hwords
    obtain ⟨before', behind, rfl, hbefore, hbehind⟩ := List.map_eq_append_iff.mp hwords
    obtain ⟨t', after', rfl, heq, hafter⟩ := List.map_eq_cons_iff.mp hbehind
    obtain ⟨left', hleft, hlefttree⟩ := ihl hbefore
    obtain ⟨right', hright, hrighttree⟩ := ihr hafter
    refine ⟨.binary t' left' right', hleft.binary ?_ hright, ?_⟩
    · rwa [Token.IsBinary, (fields heq).1, (fields heq).2]
    · rw [Phrase.tree?, Phrase.tree?, hlefttree, hrighttree, (fields heq).2]

/-- Spelling depends on words only. -/
theorem Spells.of_words {symbol : Nonterminal} {tokens tokens' : List Token} {tree : Tree}
    (h : Spells symbol tokens tree) (hwords : tokens'.map Token.word = tokens.map Token.word) :
    Spells symbol tokens' tree := by
  obtain ⟨phrase, hderives, htree⟩ := h
  obtain ⟨phrase', hderives', htree'⟩ := hderives.of_words hwords
  exact ⟨phrase', hderives', htree'.trans htree⟩

/-! ### Sources -/

/-- The tokens of a source are the lexemes that it is a sequence of. -/
theorem tokenize_eq_ok_iff {source : String} {tokens : List Token} :
    tokenize source = .ok tokens ↔ Lexes 0 source.toList tokens := by
  rw [← scan_eq_ok_iff, tokenize]
  cases Token.scan 0 source.toList with
  | error fault => constructor <;> intro h <;> cases h
  | ok found => rw [Except.mapError, Except.ok.injEq, Except.ok.injEq]

/-- A source has the tree that its lexemes spell, wherever they are taken to begin. -/
theorem compile_eq_ok_iff_lexes {source : String} {tree : Tree} (start : Nat) :
    compile source = .ok ⟨source, tree⟩ ↔
      ∃ tokens, Lexes start source.toList tokens ∧ Spells .sentence tokens tree := by
  rw [compile_eq_ok_iff]
  constructor
  · intro h
    obtain ⟨_, tokens, htokens, hspells⟩ := h
    obtain ⟨tokens', hlexes, hwords⟩ := (tokenize_eq_ok_iff.mp htokens).relocate start
    exact ⟨tokens', hlexes, hspells.of_words hwords⟩
  · intro h
    obtain ⟨tokens, hlexes, hspells⟩ := h
    obtain ⟨tokens', hlexes', hwords⟩ := hlexes.relocate 0
    exact ⟨rfl, tokens', tokenize_eq_ok_iff.mpr hlexes', hspells.of_words hwords⟩

/-- The expression of a source names that source. -/
theorem source_of_compile {source : String} {e : Expression} (h : compile source = .ok e) :
    e = ⟨source, e.tree⟩ := by
  rw [← (compile_eq_ok_iff.mp h).1]

/-- A source has the same tree without the blanks around it. -/
theorem compile_trimmed {source : String} {e : Expression} (h : compile source = .ok e) :
    compile (trimmed source) = .ok ⟨trimmed source, e.tree⟩ := by
  rw [source_of_compile h, compile_eq_ok_iff_lexes 0] at h
  obtain ⟨tokens, hlexes, hspells⟩ := h
  have htrim := hlexes.trim
  rw [← String.toList_ofList (l := trim source.toList), ← trimmed] at htrim
  exact (compile_eq_ok_iff_lexes _).mpr ⟨tokens, htrim, hspells⟩

/-- What is compiled begins with blanks and a character that is neither blank nor one of operators, unless it is the
negation. -/
theorem exists_first_of_compile {source : String} {e : Expression} (h : compile source = .ok e) :
    ∃ blanks c rest, (∀ d ∈ blanks, isBlank d = true) ∧ isBlank c = false ∧ (isOperatorChar c = true → c = '!') ∧
      source.toList = blanks ++ c :: rest := by
  rw [source_of_compile h, compile_eq_ok_iff_lexes 0] at h
  obtain ⟨tokens, hlexes, phrase, hderives, _⟩ := h
  obtain ⟨t, more, rfl, ht⟩ := first_of_derives hderives
  obtain ⟨blanks, rest, hblanks, hlexeme, hchars, _⟩ := hlexes.first
  obtain ⟨c, cs, htext⟩ := List.exists_cons_of_ne_nil hlexeme.ne_nil
  refine ⟨blanks, c, cs ++ rest, hblanks, hlexeme.first_not_blank c (by simp [htext]), fun hc => ?_,
    by simp [hchars, htext]⟩
  rw [htext] at hlexeme
  have hkind := hlexeme.kind_eq_operator hc
  rcases ht with hword | hopening | hnegation
  · rcases hword with hword | hword <;> exact absurd (hword.symm.trans hkind) (by decide)
  · exact absurd (hopening.1.symm.trans hkind) (by decide)
  · rw [hnegation.2] at htext
    exact (List.cons.inj htext).1.symm

end ReactiveTemplate.Expression
