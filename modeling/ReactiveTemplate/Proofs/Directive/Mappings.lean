import Mathlib
import ReactiveTemplate.Proofs.Directive.Fragments
import ReactiveTemplate.Proofs.Template.Caching
import ReactiveTemplate.Proofs.Text.Cursors

/-!
# Mapping literals carry every expression

A literal is written from keys in quotes and sources of expressions. It is read back entry by entry: the
source of an expression is closed, so that it ends at the comma or the brace behind it, whatever stands
between its quotes and parentheses.
-/

namespace ReactiveTemplate.Directive.Mapping

open ReactiveTemplate.Text Cursor

/-- An entry of a literal: a key between quotes that do not stand in it, and the source of an expression. -/
structure Entry where
  quote : Char
  key : String
  source : Source
  isQuote_quote : Fragment.isQuote quote = true
  quote_not_mem : quote ∉ key.toList

namespace Entry

/-- What stands in front of the source: the key in quotes, and a colon. -/
def keyChars (entry : Entry) : List Char :=
  entry.quote :: entry.key.toList ++ [entry.quote, ':']

/-- An entry as it is written, and as it is read. -/
def written (entry : Entry) : Written (String × Fragment) where
  chars := entry.keyChars ++ entry.source.text.toList
  value start := (entry.key, entry.source.fragment (start + byteSize entry.keyChars))

/-- An entry of a mapping has the key, and what the trimmed source is compiled to. -/
def Compiled (entry : Entry) (found : String × Expression) : Prop :=
  found.1 = entry.key ∧ Expression.compile (trimmed entry.source.text) = .ok found.2

end Entry

/-- A literal: entries between braces, with commas between them. -/
def literal (entries : List Entry) : String :=
  String.ofList ('{' :: joined ',' (entries.map Entry.written) ++ ['}'])

/-- The commas and braces at which a value ends. -/
def endsValue (c : Char) : Bool :=
  c == ',' || c == '}'

/-- Values end at separators. -/
theorem separates_endsValue : Separates endsValue := by
  intro c h
  rw [endsValue, Bool.or_eq_true, beq_iff_eq, beq_iff_eq] at h
  exact h.imp_right Or.inr

/-- A quoted text is read up to its quote. -/
theorem quoted?_append {quote : Char} (hq : Fragment.isQuote quote = true) {content : List Char}
    (h : quote ∉ content) (offset : Nat) (rest : List Char) :
    quoted? ⟨offset, quote :: (content ++ quote :: rest)⟩ =
      some (String.ofList content, ⟨offset + byteSize (quote :: content ++ [quote]), rest⟩) := by
  have hadvance : advance ⟨offset, quote :: (content ++ quote :: rest)⟩ (content.length + 2) =
      ⟨offset + byteSize (quote :: content ++ [quote]), rest⟩ := by
    simpa using advance_append offset (quote :: content ++ [quote]) rest
  simp only [quoted?, hq, if_true, idxOf?_append_cons h, Option.map_some, List.take_left, hadvance]

/-- An entry is read as it was written. -/
theorem reads_written (entry : Entry) : Reads entry? (AtStop endsValue) entry.written := by
  intro offset rest hrest
  have hquote : Ends isBlank (entry.quote :: (entry.key.toList ++ entry.quote :: ':' ::
      (entry.source.text.toList ++ rest))) := by
    refine ends_cons ?_ _
    have hq := entry.isQuote_quote
    rw [isQuote_eq] at hq
    exact (Expression.not_class_of_isQuote hq).2.2.2
  have hcut := entry.source.closed.cut?_append separates_endsValue entry.source.not_blank hrest
    (offset + byteSize (entry.quote :: entry.key.toList ++ [entry.quote]) + ':'.utf8Size)
  have hchars : entry.written.chars ++ rest =
      entry.quote :: (entry.key.toList ++ entry.quote :: ':' :: (entry.source.text.toList ++ rest)) := by
    simp [Entry.written, Entry.keyChars]
  have hplace : offset + byteSize (entry.quote :: entry.key.toList ++ [entry.quote]) + ':'.utf8Size =
      offset + byteSize entry.keyChars := by
    simp [Entry.keyChars, Nat.add_assoc]
  rw [hchars, entry?, skipBlank, skip_of_ends hquote, key?,
    quoted?_append entry.isQuote_quote entry.quote_not_mem, Option.some_or, Option.bind_eq_bind,
    Option.bind_some]
  simp only [skipBlank, skip_of_ends (ends_cons (p := isBlank) (c := ':') (by decide) _), past?_cons]
  change (Fragment.cut? endsValue _ >>= _) = _
  rw [hcut, hplace, String.ofList_toList, Entry.written, byteSize_append, ← Nat.add_assoc]
  rfl

/-- A literal is read as the entries that it was written from. -/
theorem entries?_literal (entries : List Entry) :
    entries? (literal entries) = some (located ',' 1 (entries.map Entry.written)) := by
  have hreads : ∀ w ∈ entries.map Entry.written, Reads entry? (AtStop endsValue) w :=
    List.forall_mem_map.mpr fun entry _ => reads_written entry
  have hentries : separated entry? ',' true ⟨1, joined ',' (entries.map Entry.written) ++ ['}']⟩ = _ :=
    separated_joined hreads (atStop_cons (Or.inr rfl)) (atStop_cons (Or.inr rfl) [])
      (ends_cons (by decide) []) 1 fun _ => rfl
  have hstart : Cursor.start (literal entries) =
      ⟨0, '{' :: (joined ',' (entries.map Entry.written) ++ ['}'])⟩ := by
    rw [Cursor.start, literal, String.toList_ofList, List.cons_append]
  have hopening : past? ⟨0, '{' :: (joined ',' (entries.map Entry.written) ++ ['}'])⟩ '{' =
      some ⟨1, joined ',' (entries.map Entry.written) ++ ['}']⟩ := past?_cons 0 '{' _
  rw [entries?, hstart, skipBlank, skip_of_ends (ends_cons (by decide) _), hopening]
  simp only [Option.bind_eq_bind, Option.bind_some, hentries, skipBlank,
    skip_of_ends (ends_cons (p := isBlank) (c := '}') (by decide) _), past?_cons]
  rfl

/-- The values of a literal lie in it where they were written. -/
theorem liesIn_literal (entries : List Entry) :
    ∀ found ∈ located ',' 1 (entries.map Entry.written), found.2.LiesIn (literal entries) := by
  have hliteral : (literal entries).toList = ['{'] ++ joined ',' (entries.map Entry.written) ++ ['}'] := by
    rw [literal, String.toList_ofList, List.cons_append]
    rfl
  refine forall_mem_located (P := fun found => found.2.LiesIn (literal entries)) ?_ hliteral
  refine List.forall_mem_map.mpr fun entry _ before behind hwhole => ?_
  have hplace : (literal entries).toList =
      before ++ entry.keyChars ++ entry.source.text.toList ++ behind := by
    simp [hwhole, Entry.written]
  rw [Entry.written]
  simp only [← byteSize_append]
  exact Fragment.liesIn_ofChars hplace

/-- The value of an entry is compiled, whatever text it is taken to lie in. -/
theorem compileEntry_written (whole : String) (entry : Entry) (start : Nat) :
    ∃ found, compileEntry whole (entry.written.value start) = .ok found ∧ entry.Compiled found := by
  obtain ⟨e, he, hfragment⟩ := entry.source.compileFragment_fragment
  refine ⟨(entry.key, e), ?_, rfl, he⟩
  rw [Entry.written, compileEntry, hfragment]
  rfl

/-- A literal of any keys in quotes and any sources that compile is read entry by entry, with the places of
the trimmed sources. From every cache that comes of compiling it gives the keys in order, each with what its
trimmed source is compiled to. -/
theorem mapping_literal (entries : List Entry) {cache : CompileCache} (hcache : cache.Reached) :
    readMapping (literal entries) = .ok (located ',' 1 (entries.map Entry.written)) ∧
      (∀ found ∈ located ',' 1 (entries.map Entry.written), found.2.LiesIn (literal entries)) ∧
      ∃ m, ((Compile.mapping (literal entries)).run.run cache).1 = .ok m ∧
        List.Forall₂ Entry.Compiled entries m := by
  have hread : readMapping (literal entries) = .ok (located ',' 1 (entries.map Entry.written)) := by
    rw [readMapping, entries?_literal]
  obtain ⟨m, hm, hcompiled⟩ := mapM_located ','
    (fun entry (_ : entry ∈ entries) => compileEntry_written (literal entries) entry) 1
  refine ⟨hread, liesIn_literal entries, m, ?_, hcompiled⟩
  rw [(Compile.answers_mapping (literal entries) cache hcache.faithful).1, compileMapping, hread]
  exact hm

/-- A value that holds separators between quotes, compiled with the empty cache. -/
theorem mapping_literal_separators :
    readMapping "\x7b'a b': \"x,\x7d\" \x7d" = .ok [("a b", ⟨"\"x,\x7d\"", ⟨8, 13⟩⟩)] ∧
      ∃ m, ((Compile.mapping "\x7b'a b': \"x,\x7d\" \x7d").run.run .empty).1 = .ok m ∧
        m.map Prod.fst = ["a b"] := by
  obtain ⟨entry, hentry⟩ : ∃ entry : Entry, entry = ⟨'\'', "a b",
      .quoted [' '] '"' ['x', ',', '}'] [' '] (by simp [isBlank]) (by decide) (by decide) (by simp [isBlank]),
      by decide, by decide⟩ :=
    ⟨_, rfl⟩
  have hliteral : literal [entry] = "\x7b'a b': \"x,\x7d\" \x7d" := by
    rw [hentry]
    decide
  have hplace : located ',' 1 [entry.written] = [("a b", ⟨"\"x,\x7d\"", ⟨8, 13⟩⟩)] := by
    rw [hentry]
    decide
  obtain ⟨hread, _, m, hm, hcompiled⟩ := mapping_literal [entry] .empty
  rw [hliteral] at hread hm
  refine ⟨hread.trans (congrArg _ hplace), m, hm, ?_⟩
  cases hcompiled with
  | cons hfirst hrest =>
    cases hrest
    rw [List.map_singleton, hfirst.1, hentry]

end ReactiveTemplate.Directive.Mapping
