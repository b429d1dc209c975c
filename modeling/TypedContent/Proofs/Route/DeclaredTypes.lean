import TypedContent.Proofs.Lists
import TypedContent.Proofs.Schema.MalformedFields
import TypedContent.Proofs.Source.SpacedEntries
import TypedContent.Proofs.Source.SpacedHeaders
import TypedContent.Proofs.Source.Statements
import TypedContent.Route.Declaration

/-!
# Declared types, statement by statement

The declarations of a text are found by their headers, wherever these stand,
and the type of each is read from what follows its header. So a declaration
can take its type from the next statement, or lose the end of its type to
it. `Settled` says that this cannot happen: each header of the statement
finds the equals sign and the end of its type, or its block, in front of the
semicolon.

Then the declarations of statements one below the other are those of each
statement on its own (`ReadsApart`). The headers are, because no header
reaches beyond a semicolon (`found_below`), and the types are, because what
is settled stays as it is (`value?_of_isSettled`). Below a statement that is
not settled there is one that changes what is read: it closes the literal,
the comment or the block that is open there (`resumption`).
-/

namespace TypedContent

open List Option Source Text

namespace TypeDeclaration

variable {skip : Nat} {before text value rest cs s : List Char} {quote c : Char}
  {found : Keyword × List Char} {keyword : Keyword}
  {statements : List (List Char)}

/-! ## Statements -/

/-- Statements one below the other, each with a semicolon. -/
def statementsText (statements : List (List Char)) : List Char :=
  "\n ".toList.intercalate (statements.map (· ++ [';']))

/-- The declarations of the text are those that its statements have on their
own, in order. -/
def ReadsApart (statements : List (List Char)) : Prop :=
  all (statementsText statements) = statements.flatMap fun s => all (s ++ [';'])

/-- A statement without its semicolon: literals and comments are closed,
brackets match, angle brackets included, and no statement ends inside of
it. -/
structure IsStatement (s : List Char) : Prop where
  closed : marks (s ++ [';']) = marks s ++ [⟨.code, ';'⟩]
  nested : nestAll? [] (marks s) = some []
  matched : Matched s
  whole : statement false s = s

/-- Whether a declaration is settled by the text behind its name, so that
nothing below can change its type. An alias needs an equals sign and the end
of the statement behind it. An interface needs an opening brace; its block
must have ended, or have met a wrong closer, unless the line below is code,
where all that is opened is closed. -/
def isSettled (keyword : Keyword) (rest : List Char) : Bool :=
  match keyword with
  | .typeAlias =>
    match cutAt? ['='] rest with
    | none => false
    | some (_, type) => statement true type != type
  | .interface =>
    match behindBrace? (marks rest) with
    | none => false
    | some inside => (stillDue? ['}'] inside).isNone || lineBelow rest = .between .code

/-- Every declaration in the statement is settled in it. -/
def Settled (s : List Char) : Prop :=
  ∀ found ∈ header.found s, isSettled found.1.1 (found.2 ++ [';']) = true

instance (s : List Char) : Decidable (IsStatement s) :=
  decidable_of_iff (marks (s ++ [';']) = marks s ++ [⟨.code, ';'⟩]
    ∧ nestAll? [] (marks s) = some [] ∧ Matched s
    ∧ statement false s = s)
    ⟨fun ⟨closed, nested, matched, whole⟩ => ⟨closed, nested, matched, whole⟩,
      fun ⟨closed, nested, matched, whole⟩ => ⟨closed, nested, matched, whole⟩⟩

instance (s : List Char) : Decidable (Settled s) :=
  inferInstanceAs (Decidable (∀ found ∈ header.found s, _))

/-! ## Headers -/

/-- No header reaches beyond a semicolon, nor does it depend on what follows
there. -/
theorem header_semicolon (before : Option Char) (xs ys : List Char) :
    header before (xs ++ ';' :: ys)
      = (header before xs).map (followedBy (';' :: ys)) := by
  have hword : isWord ';' = false := by decide
  have hhead :
      isBoundary before (xs ++ ';' :: ys).head? = isBoundary before xs.head? := by
    cases xs with
    | nil => simp [isBoundary, hword]
    | cons x xs => rfl
  have hkeyword :
      ((word? "interface" (xs ++ ';' :: ys)).map fun rest =>
        (Keyword.interface, rest)).or
        ((word? "type" (xs ++ ';' :: ys)).map fun rest => (Keyword.typeAlias, rest))
      = (((word? "interface" xs).map fun rest => (Keyword.interface, rest)).or
        ((word? "type" xs).map fun rest => (Keyword.typeAlias, rest))).map
          (followedBy (';' :: ys)) := by
    rw [word?_semicolon (by decide), word?_semicolon (by decide)]
    cases word? "interface" xs <;> cases word? "type" xs <;> rfl
  unfold header
  rw [hkeyword, hhead]
  cases ((word? "interface" xs).map fun rest => (Keyword.interface, rest)).or
      ((word? "type" xs).map fun rest => (Keyword.typeAlias, rest)) with
  | none => rfl
  | some found =>
    simp only [map_some, bind_eq_bind, bind_some, followedBy, blanks?_semicolon]
    cases blanks? found.2 with
    | none => rfl
    | some rest =>
      simp only [map_some, bind_some, name?_semicolon]
      cases name? rest with
      | none => rfl
      | some named =>
        simp only [map_some, bind_some]
        split <;> rfl

theorem matchesFrom_semicolon {xs : List Char} (h : skip ≤ xs.length)
    (before : Option Char) (ys : List Char) :
    header.matchesFrom skip before (xs ++ ';' :: ys)
      = (header.matchesFrom skip before xs).map (followedBy (';' :: ys))
        ++ header.matchesFrom 0 (some ';') ys := by
  fun_induction Pattern.matchesFrom header skip before xs with
  | case1 skip before =>
    obtain rfl : skip = 0 := Nat.le_zero.1 h
    have hnone : header before (';' :: ys) = none := header_semicolon before [] ys
    rw [nil_append, Pattern.matchesFrom, hnone]
    rfl
  | case2 skip before c cs ih => exact ih (Nat.le_of_succ_le_succ h)
  | case3 before c cs found rest hfound ih =>
    have hread := header_semicolon before (c :: cs) ys
    rw [hfound, cons_append] at hread
    have hlength : (cs ++ ';' :: ys).length - (rest ++ ';' :: ys).length
        = cs.length - rest.length := by
      rw [length_append, length_append]
      omega
    rw [cons_append, Pattern.matchesFrom, hread]
    simp only [map_some, followedBy, hlength, ih (Nat.sub_le _ _)]
    rfl
  | case4 before c cs hnone ih =>
    have hread := header_semicolon before (c :: cs) ys
    rw [hnone, cons_append] at hread
    rw [cons_append, Pattern.matchesFrom, hread]
    exact ih (Nat.zero_le _)

theorem header_of_ne (hi : c ≠ 'i') (ht : c ≠ 't') (before : Option Char)
    (cs : List Char) :
    header before (c :: cs) = none := by
  have hinterface : word? "interface" (c :: cs) = none := by
    have hfirst : ('i' == c) = false := beq_eq_false_iff_ne.2 (Ne.symm hi)
    rw [word?, show "interface".toList
      = 'i' :: "nterface".toList by decide, List.isPrefixOf?, hfirst]
    rfl
  have htype : word? "type" (c :: cs) = none := by
    have hfirst : ('t' == c) = false := beq_eq_false_iff_ne.2 (Ne.symm ht)
    rw [word?, show "type".toList = 't' :: "ype".toList by
      decide, List.isPrefixOf?, hfirst]
    rfl
  rw [header, hinterface, htype]
  rfl

/-- What stands before a text counts for no more than whether it is a
word. -/
theorem matchesFrom_blank (hc : isBlank c = true) (text : List Char) :
    header.matchesFrom 0 (some c) text = header.found text := by
  cases text with
  | nil => rfl
  | cons d text =>
    have hboundary : isBoundary (some c) (some d) = isBoundary none (some d) := by
      simp [isBoundary, isWord_of_isBlank hc]
    have hheader : header (some c) (d :: text) = header none (d :: text) := by
      unfold header
      rw [head?_cons, hboundary]
    rw [Pattern.found, Pattern.matchesFrom, Pattern.matchesFrom, hheader]

/-- The headers of a statement and of the lines below it. -/
theorem found_below (s text : List Char) :
    header.found (s ++ ';' :: '\n' :: ' ' :: text)
      = (header.found s).map (followedBy (';' :: '\n' :: ' ' :: text))
        ++ header.found text := by
  have hline : ∀ before, header before ('\n' :: ' ' :: text) = none := fun before =>
    header_of_ne (by decide) (by decide) before _
  have hspace : ∀ before, header before (' ' :: text) = none := fun before =>
    header_of_ne (by decide) (by decide) before _
  rw [Pattern.found, matchesFrom_semicolon (Nat.zero_le _), Pattern.matchesFrom,
    hline, ← Pattern.found]
  simp only
  rw [Pattern.matchesFrom, hspace]
  exact congrArg _ (matchesFrom_blank rfl text)

theorem found_alone (s : List Char) :
    header.found (s ++ [';']) = (header.found s).map (followedBy [';']) := by
  rw [Pattern.found, matchesFrom_semicolon (Nat.zero_le _), Pattern.matchesFrom,
    append_nil, ← Pattern.found]

/-! ## Declarations -/

/-- The declaration with a given header, if it has a type. -/
def declared? (found : (Keyword × List Char) × List Char) :
    Option (List Char × List Char) :=
  ((value? found.1.1 found.2).filter (· ≠ [])).map fun value => (found.1.2, value)

theorem all_eq (cs : List Char) : all cs = (header.found cs).filterMap declared? := rfl

theorem all_below (s text : List Char) :
    all (s ++ ';' :: '\n' :: ' ' :: text)
      = (header.found s).filterMap (declared? ∘ followedBy (';' :: '\n' :: ' ' :: text))
        ++ all text := by
  rw [all_eq, found_below, filterMap_append, filterMap_map, ← all_eq]

theorem all_alone (s : List Char) :
    all (s ++ [';']) = (header.found s).filterMap (declared? ∘ followedBy [';']) := by
  rw [all_eq, found_alone, filterMap_map]

/-! ## Aliases -/

theorem value?_alias (h : '=' ∉ before) (type : List Char) :
    value? .typeAlias (before ++ '=' :: type) = some (trim (statement true type)) := by
  rw [value?, cutAt?_append h]
  rfl

theorem isSettled_alias (h : '=' ∉ before) (type : List Char) :
    isSettled .typeAlias (before ++ '=' :: type) = (statement true type != type) := by
  rw [isSettled, cutAt?_append h]

theorem alias_noEquals (h : '=' ∉ rest) :
    value? .typeAlias rest = none ∧ isSettled .typeAlias rest = false := by
  rw [value?, isSettled, cutAt?_eq_none h]
  exact ⟨rfl, rfl⟩

/-! ## Interfaces -/

theorem value?_interface (rest : List Char) :
    value? .interface rest
      = (behindBrace? (marks rest)).bind fun inside =>
          (enclosed? ['}'] inside).map fun found => '{' :: found.1 ++ ['}'] :=
  text_firstBlock? (marks rest)

/-! ## Types with more lines below -/

/-- A settled type stays as it is, as long as the lines below close what
they open. -/
theorem value?_of_isSettled (h : isSettled keyword (rest ++ [';']) = true)
    (htext : nestAll? [] (marks text) = some []) :
    value? keyword (rest ++ ';' :: '\n' :: ' ' :: text)
      = value? keyword (rest ++ [';']) := by
  cases keyword with
  | typeAlias =>
    by_cases hequals : '=' ∈ rest
    · obtain ⟨before, type, rfl, hbefore⟩ := eq_append_cons_of_mem hequals
      rw [append_assoc, cons_append, isSettled_alias hbefore, bne_iff_ne] at h
      rw [append_assoc, append_assoc, cons_append, cons_append, value?_alias hbefore,
        value?_alias hbefore, statement_of_ended h]
    · have hequals' : '=' ∉ rest ++ [';'] := by simp [hequals]
      rw [(alias_noEquals hequals').2] at h
      cases h
  | interface =>
    obtain ⟨mode, role, role', hmode, -, -, hmarks⟩ := marks_lineBelow rest
    rw [isSettled] at h
    rw [value?_interface, value?_interface, hmarks, behindBrace?_append]
    cases hinside : behindBrace? (marks (rest ++ [';'])) with
    | none =>
      rw [hinside] at h
      cases h
    | some inside =>
      rw [hinside] at h
      simp only [map_some, some_or, bind_some]
      cases hdue : stillDue? ['}'] inside with
      | none =>
        have hsame := congrArg (Option.map fun inner => '{' :: inner ++ ['}'])
          (enclosed?_append_of_settled hdue
          (⟨role, '\n'⟩ :: ⟨role', ' '⟩ :: mark mode text))
        simpa only [Option.map_map, Function.comp_def] using hsame
      | some due =>
        obtain rfl : mode = .code := by
          simpa [hdue, hmode] using h
        obtain ⟨first, outer, rfl⟩ := exists_cons_of_ne_nil
          (of_stillDue? (cons_ne_nil _ _) (by decide) hdue).1
        have hbelow := nestAll?_lineBelow role role' htext
        rw [enclosed?_append_of_stillDue? hdue, enclosed?_of_stillDue? hdue]
        have hnone := enclosed?_eq_none hbelow first outer
        rw [nil_append, marks] at hnone
        rw [hnone]
        rfl

theorem isSome_declared? (found : (Keyword × List Char) × List Char) :
    (declared? found).isSome = true
      ↔ ∃ value, value? found.1.1 found.2 = some value ∧ value ≠ [] := by
  rw [declared?, isSome_map]
  cases value? found.1.1 found.2 with
  | none => simp
  | some value => by_cases hvalue : value = [] <;> simp [hvalue]

/-- A type that is there does not go away. -/
theorem isSome_declared?_below {found : (Keyword × List Char) × List Char}
    (h : (declared? (followedBy [';'] found)).isSome = true) (text : List Char) :
    (declared? (followedBy (';' :: '\n' :: ' ' :: text) found)).isSome = true := by
  obtain ⟨⟨keyword, name⟩, rest⟩ := found
  rw [isSome_declared?] at h ⊢
  obtain ⟨value, hvalue, hne⟩ := h
  simp only [followedBy] at hvalue ⊢
  cases keyword with
  | typeAlias =>
    by_cases hequals : '=' ∈ rest
    · obtain ⟨before, type, rfl, hbefore⟩ := eq_append_cons_of_mem hequals
      rw [append_assoc, cons_append, value?_alias hbefore] at hvalue ⊢
      obtain rfl := Option.some.inj hvalue
      refine ⟨_, rfl, ?_⟩
      by_cases hended : statement true (type ++ [';']) = type ++ [';']
      · obtain ⟨more, hmore⟩ := statement_of_unended hended ('\n' :: ' ' :: text)
        rw [hmore, trim_append_cons (by decide)]
        exact append_ne_nil_of_right_ne_nil _ (cons_ne_nil _ _)
      · rwa [statement_of_ended hended]
    · have hequals' : '=' ∉ rest ++ [';'] := by simp [hequals]
      rw [(alias_noEquals hequals').1] at hvalue
      cases hvalue
  | interface =>
    obtain ⟨mode, role, role', -, -, -, hmarks⟩ := marks_lineBelow rest
    rw [value?_interface] at hvalue
    obtain ⟨inside, hinside, hfound⟩ := bind_eq_some_iff.1 hvalue
    obtain ⟨⟨inner, after⟩, henclosed, rfl⟩ := map_eq_some_iff.1 hfound
    have hdue : stillDue? ['}'] inside = none := by
      cases hdue : stillDue? ['}'] inside with
      | none => rfl
      | some due =>
        rw [enclosed?_of_stillDue? hdue] at henclosed
        cases henclosed
    have hsame :=
      enclosed?_append_of_settled hdue (⟨role, '\n'⟩ :: ⟨role', ' '⟩ :: mark mode text)
    rw [henclosed] at hsame
    obtain ⟨found, hfound, -⟩ := map_eq_some_iff.1 hsame
    refine ⟨'{' :: found.1 ++ ['}'], ?_, cons_ne_nil _ _⟩
    rw [value?_interface, hmarks, behindBrace?_append, hinside]
    simp only [map_some, some_or, bind_some, hfound]

/-! ## Statements that go on with a type -/

/-- The beginning of a statement that declares nothing. -/
def assignment : List Char :=
  ['a', ' ', '=', ' ']

/-- An assignment of a literal is a statement. -/
theorem isStatement_literal {body : List Char} (hquote : isQuote quote = true)
    (hbody : IsClosedLiteral quote body) : IsStatement (assignment ++ quote :: body) := by
  have hmarks : ∀ rest, marks (assignment ++ quote :: body ++ rest)
      = assignment.map (Marked.mk .code)
        ++ ((quote :: body).map (Marked.mk .literal) ++ marks rest) := by
    intro rest
    rw [append_assoc, marks_append_of_isCode (by decide), marks_quoted hquote hbody]
  have hself := hmarks []
  rw [append_nil, marks_nil, append_nil] at hself
  refine ⟨?_, ?_, ?_, ?_⟩
  · rw [hmarks, hself, append_assoc]
    rfl
  · rw [hself, nestAll?, foldlM_append]
    exact nestAll?_literals [] _
  · rw [Matched, hself]
    exact level?_literals 0 false _
  · rw [statement, hself]
    exact congrArg (assignment ++ ·) (statementFrom_literals 0 false (quote :: body))

/-- A statement that shows a text as code where the line starts in the given
mode. It starts with a literal or a comment that is closed where the text
begins. -/
def resumption : Mode → List Char → List Char
  | .literal quote, inside => assignment ++ quote :: (inside ++ [quote])
  | .blockComment, inside => assignment ++ '\'' :: ('*' :: '/' :: inside ++ ['\''])
  | .code, inside | .lineComment, inside => assignment ++ inside

/-- A text of braces and closers. -/
def IsBrackets (cs : List Char) : Prop :=
  ∀ c ∈ cs, c = '{' ∨ isCloser c = true

theorem IsBrackets.cases (h : IsBrackets cs) (hc : c ∈ cs) :
    c = '{' ∨ c = '}' ∨ c = ']' ∨ c = ')' := by
  rcases h c hc with rfl | hcloser
  · exact .inl rfl
  · simp only [isCloser, Bool.or_eq_true, beq_iff_eq] at hcloser
    exact .inr (or_assoc.1 hcloser)

theorem IsBrackets.isCode (h : IsBrackets cs) : isCode cs = true := by
  rw [isCode_iff]
  intro c hc
  rcases h.cases hc with rfl | rfl | rfl | rfl <;> decide

theorem IsBrackets.isClosedLiteral (h : IsBrackets cs) (hquote : isQuote quote = true) :
    IsClosedLiteral quote (cs ++ [quote]) := by
  refine isClosedLiteral_append ?_ fun c hc => ⟨?_, ?_⟩
  · rintro rfl
    cases hquote
  · rintro rfl
    rcases h.cases hc with rfl | rfl | rfl | rfl <;> cases hquote
  · rcases h.cases hc with rfl | rfl | rfl | rfl <;> decide

theorem found_eq_nil (h : ∀ c ∈ cs, c ≠ 'i' ∧ c ≠ 't') : header.found cs = [] := by
  have hall : ∀ before, header.matchesFrom 0 before cs = [] := by
    induction cs with
    | nil => exact fun before => rfl
    | cons c cs ih =>
      rw [forall_mem_cons] at h
      intro before
      rw [Pattern.matchesFrom, header_of_ne h.1.1 h.1.2]
      exact ih h.2 (some c)
  exact hall none

section Resumption

variable {mode : Mode} {inside : List Char}
  (hquote : ∀ quote, mode = .literal quote → isQuote quote = true)
  (hinside : IsBrackets inside)

include hquote hinside

theorem found_resumption : header.found (resumption mode inside) = [] := by
  have hbrackets : ∀ c ∈ inside, c ≠ 'i' ∧ c ≠ 't' := by
    intro c hc
    rcases hinside.cases hc with rfl | rfl | rfl | rfl <;> decide
  have hassignment : ∀ c ∈ assignment, c ≠ 'i' ∧ c ≠ 't' := by decide
  refine found_eq_nil fun c hc => ?_
  cases mode with
  | code => exact (mem_append.1 hc).elim (hassignment c) (hbrackets c)
  | lineComment => exact (mem_append.1 hc).elim (hassignment c) (hbrackets c)
  | literal quote =>
    have hquote' : quote ≠ 'i' ∧ quote ≠ 't' := by
      constructor <;> rintro rfl <;> cases hquote _ rfl
    rcases mem_append.1 hc with hc | hc
    · exact hassignment c hc
    rcases mem_cons.1 hc with rfl | hc
    · exact hquote'
    rcases mem_append.1 hc with hc | hc
    · exact hbrackets c hc
    · exact mem_singleton.1 hc ▸ hquote'
  | blockComment =>
    have hsigns : ∀ c ∈ ['\'', '*', '/'], c ≠ 'i' ∧ c ≠ 't' := by decide
    have htext : resumption .blockComment inside
        = assignment ++ ['\'', '*', '/'] ++ inside ++ ['\''] := by
      simp [resumption]
    simp only [htext, mem_append, mem_singleton] at hc
    rcases hc with ((hc | hc) | hc) | rfl
    · exact hassignment c hc
    · exact hsigns c hc
    · exact hbrackets c hc
    · decide

theorem isStatement_resumption (hmode : mode ≠ .code) (hline : mode ≠ .lineComment) :
    IsStatement (resumption mode inside) := by
  cases mode with
  | code => exact absurd rfl hmode
  | lineComment => exact absurd rfl hline
  | literal quote =>
    exact isStatement_literal (hquote quote rfl)
      (hinside.isClosedLiteral (hquote quote rfl))
  | blockComment =>
    refine isStatement_literal rfl (isClosedLiteral_append (by decide) fun c hc => ?_)
    rcases mem_cons.1 hc with rfl | hc
    · decide
    rcases mem_cons.1 hc with rfl | hc
    · decide
    rcases hinside.cases hc with rfl | rfl | rfl | rfl <;> decide

/-- Where the line starts in the mode, the text is code and nothing in front
of it is a bracket. -/
theorem exists_mark_resumption (hline : mode ≠ .lineComment) :
    ∃ front back, mark mode (resumption mode inside ++ [';'])
      = front ++ (inside.map (Marked.mk .code) ++ back)
      ∧ nestAll? [] front = some [] ∧ behindBrace? front = none := by
  cases mode with
  | lineComment => exact absurd rfl hline
  | code =>
    refine ⟨assignment.map (Marked.mk .code), marks [';'], ?_, rfl, rfl⟩
    rw [resumption, append_assoc]
    exact (marks_append_of_isCode (by decide) _).trans
      (congrArg _ (marks_append_of_isCode hinside.isCode _))
  | literal quote =>
    have hclosed : IsClosedLiteral quote (assignment ++ [quote]) := by
      have hquote := hquote quote rfl
      simp only [isQuote, Bool.or_eq_true, beq_iff_eq] at hquote
      rcases hquote with (rfl | rfl)
        | rfl <;> exact isClosedLiteral_append (by decide) (by decide)
    have htext : resumption (.literal quote) inside ++ [';']
        = assignment ++ [quote] ++ (inside ++ [quote, ';']) := by
      simp [resumption]
    refine ⟨(assignment ++ [quote]).map (Marked.mk .literal), marks [quote, ';'], ?_,
      nestAll?_literals [] _,
      behindBrace?_literals _⟩
    rw [htext, mark_literalRest, hclosed.rest, marks_append_of_isCode hinside.isCode]
  | blockComment =>
    have htext : resumption .blockComment inside ++ [';']
        = assignment ++ ['\'', '*', '/'] ++ (inside ++ ['\'', ';']) := by
      simp [resumption]
    refine ⟨(assignment ++ ['\'', '*', '/']).map (Marked.mk .comment),
      marks ['\'', ';'], ?_, rfl, rfl⟩
    rw [htext, ← marks_append_of_isCode hinside.isCode]
    rfl

end Resumption

theorem declared?_eq_some (h : value? keyword rest = some value) (hne : value ≠ [])
    (name : List Char) : declared? ((keyword, name), rest) = some (name, value) := by
  simp [declared?, h, hne]

theorem declared?_eq_none (h : value? keyword rest = none) (name : List Char) :
    declared? ((keyword, name), rest) = none := by
  simp [declared?, h]

/-- The line below changes the type of an alias that is not settled. -/
theorem alias_goes_on (h : isSettled .typeAlias (rest ++ [';']) = false)
    (name : List Char) :
    declared? ((.typeAlias, name), rest ++ ';' :: '\n' :: ' '
      :: (assignment ++ ['b'] ++ [';']))
      ≠ declared? ((.typeAlias, name), rest ++ [';']) := by
  by_cases hequals : '=' ∈ rest
  · obtain ⟨before, type, rfl, hbefore⟩ := eq_append_cons_of_mem hequals
    rw [append_assoc, cons_append, isSettled_alias hbefore, bne_eq_false_iff_eq] at h
    have hstarts :
        startsDeclaration (' ' :: (assignment ++ ['b'] ++ [';'])) = false := by decide
    obtain ⟨more, hmore⟩ := statement_lineBelow h (by decide) (by decide) hstarts
    have hsemicolon : isBlank ';' = false := by decide
    have hletter : isBlank 'a' = false := by decide
    have hbelow :
        trimEnd ('\n' :: ' ' :: 'a' :: more) = '\n' :: ' ' :: 'a' :: trimEnd more :=
      trimEnd_append_cons hletter ['\n', ' '] more
    have hne : ∀ after, trimStart type ++ ';' :: after ≠ [] := fun after =>
      append_ne_nil_of_right_ne_nil _ (cons_ne_nil _ _)
    have hlong :
        value? .typeAlias (before ++ '=' :: type ++ ';' :: '\n' :: ' '
          :: (assignment ++ ['b'] ++ [';']))
        = some (trimStart type ++ ';' :: '\n' :: ' ' :: 'a' :: trimEnd more) := by
      rw [append_assoc, cons_append, value?_alias hbefore]
      refine congrArg some ?_
      refine (congrArg trim hmore).trans ?_
      rw [trim_append_cons hsemicolon, hbelow]
    have hshort : value? .typeAlias (before ++ '=' :: type ++ [';'])
        = some (trimStart type ++ [';']) := by
      rw [append_assoc, cons_append, value?_alias hbefore, h, trim_append_cons hsemicolon]
      rfl
    rw [declared?_eq_some hlong (hne _), declared?_eq_some hshort (hne _)]
    intro heq
    have hvalues := (Prod.mk.inj (Option.some.inj heq)).2
    cases (List.cons.inj (append_cancel_left hvalues)).2
  · have hbefore : '=' ∉ rest ++ [';', '\n', ' ', 'a', ' '] := by simp [hequals]
    have hshort : '=' ∉ rest ++ [';'] := by simp [hequals]
    have htext : rest ++ ';' :: '\n' :: ' ' :: (assignment ++ ['b'] ++ [';'])
        = rest ++ [';', '\n', ' ', 'a', ' '] ++ '=' :: [' ', 'b', ';'] := by
      simp [assignment]
    have hvalue : trim (statement true [' ', 'b', ';']) = ['b'] := by decide
    have hlong := value?_alias hbefore [' ', 'b', ';']
    rw [hvalue] at hlong
    rw [declared?_eq_none (alias_noEquals hshort).1, htext,
      declared?_eq_some hlong (by decide)]
    exact some_ne_none _

/-- Some line below gives an interface a type that is not settled. -/
theorem interface_goes_on (h : isSettled .interface (rest ++ [';']) = false)
    (name : List Char) :
    ∃ t, IsStatement t ∧ header.found t = []
      ∧ declared? ((.interface, name), rest ++ ';' :: '\n' :: ' ' :: (t ++ [';']))
        ≠ declared? ((.interface, name), rest ++ [';']) := by
  obtain ⟨mode, role, role', hmode, hline, hquote, hmarks⟩ := marks_lineBelow rest
  -- it is enough that the line below makes for a block
  have hfinish : ∀ t inside found, value? .interface (rest ++ [';']) = none →
      behindBrace? (marks (rest ++ ';' :: '\n' :: ' ' :: (t ++ [';']))) = some inside →
      enclosed? ['}'] inside = some found →
      declared? ((.interface, name), rest ++ ';' :: '\n' :: ' ' :: (t ++ [';']))
        ≠ declared? ((.interface, name), rest ++ [';']) := by
    intro t inside found hnone hinside hfound
    have hvalue : value? .interface (rest ++ ';' :: '\n' :: ' ' :: (t ++ [';']))
        = some ('{' :: found.1 ++ ['}']) := by
      rw [value?_interface, hinside, bind_some, hfound]
      rfl
    rw [declared?_eq_none hnone, declared?_eq_some hvalue (cons_ne_nil _ _)]
    exact some_ne_none _
  rw [isSettled] at h
  cases hinside : behindBrace? (marks (rest ++ [';'])) with
  | none =>
    have hbrackets : IsBrackets ['{', '}'] := by
      intro c hc
      simp only [mem_cons, not_mem_nil, or_false] at hc
      rcases hc with rfl | rfl
      · exact .inl rfl
      · exact .inr rfl
    obtain ⟨front, back, hfront, -, hnone⟩ :=
      exists_mark_resumption hquote hbrackets hline
    refine ⟨resumption mode ['{', '}'], ?_, found_resumption hquote hbrackets, ?_⟩
    · by_cases hcode : mode = .code
      · subst hcode
        decide
      · exact isStatement_resumption hquote hbrackets hcode hline
    · refine hfinish _ (⟨.code, '}'⟩ :: back) ([], unmark back) ?_ ?_ rfl
      · rw [value?_interface, hinside]
        rfl
      · have hblanks : ∀ ms, behindBrace? (⟨role, '\n'⟩ :: ⟨role', ' '⟩ :: ms)
            = behindBrace? ms := fun ms => by
          rw [behindBrace?, if_neg (by simp), behindBrace?, if_neg (by simp)]
        rw [hmarks, behindBrace?_append, hinside, hblanks, hfront,
          behindBrace?_append, hnone]
        rfl
  | some inside =>
    rw [hinside] at h
    dsimp only at h
    rw [Bool.or_eq_false_iff, decide_eq_false_iff_not, hmode] at h
    have hcode : mode ≠ .code := fun hcode => h.2 (hcode ▸ rfl)
    cases hdue : stillDue? ['}'] inside with
    | none =>
      rw [hdue] at h
      cases h.1
    | some due =>
      obtain ⟨hne, hclosers⟩ := of_stillDue? (cons_ne_nil _ _) (by decide) hdue
      have hbrackets : IsBrackets due := fun c hc => .inr (hclosers c hc)
      obtain ⟨front, back, hfront, hnested, -⟩ :=
        exists_mark_resumption hquote hbrackets hline
      obtain ⟨found, hfound⟩ := exists_enclosed?_closers hne hclosers back
      obtain ⟨first, outer, rfl⟩ := exists_cons_of_ne_nil hne
      have hbelow := enclosed?_append (nestAll?_lineBelow role role' hnested) first outer
        ((first :: outer).map (Marked.mk .code) ++ back)
      rw [nil_append, hfound, cons_append, cons_append, ← hfront] at hbelow
      have hblock := enclosed?_append_of_stillDue? hdue
        (⟨role, '\n'⟩ :: ⟨role', ' '⟩
          :: mark mode (resumption mode (first :: outer) ++ [';']))
      rw [hbelow] at hblock
      refine ⟨resumption mode (first :: outer),
        isStatement_resumption hquote hbrackets hcode hline,
        found_resumption hquote hbrackets, hfinish _ _ _ ?_ ?_ hblock⟩
      · rw [value?_interface, hinside, bind_some, enclosed?_of_stillDue? hdue]
        rfl
      · rw [hmarks, behindBrace?_append, hinside]
        rfl

/-! ## Texts of statements -/

theorem statementsText_singleton (s : List Char) : statementsText [s] = s ++ [';'] := by
  simp [statementsText, List.intercalate]

theorem statementsText_cons (s : List Char) (h : statements ≠ []) :
    statementsText (s :: statements)
      = s ++ ';' :: '\n' :: ' ' :: statementsText statements := by
  obtain ⟨next, rest, rfl⟩ := exists_cons_of_ne_nil h
  simp [statementsText, List.intercalate]

theorem IsStatement.marks_append (h : IsStatement s) (rest : List Char) :
    marks (s ++ ';' :: rest) = marks s ++ ⟨.code, ';'⟩ :: marks rest :=
  marks_append_cons (by decide) (by rw [h.closed, getLast?_concat]) rest

/-- Statements close what they open. -/
theorem nestAll?_statementsText (h : ∀ s ∈ statements, IsStatement s) :
    nestAll? [] (marks (statementsText statements)) = some [] := by
  induction statements with
  | nil => rfl
  | cons s statements ih =>
    rw [forall_mem_cons] at h
    have hnested : (marks s).foldlM nest? [] = some [] := h.1.nested
    by_cases hnil : statements = []
    · rw [hnil, statementsText_singleton, h.1.closed, nestAll?, foldlM_append, hnested]
      rfl
    · rw [statementsText_cons s hnil, h.1.marks_append, marks_cons rfl (by decide),
        marks_cons rfl (by decide), nestAll?, foldlM_append, hnested]
      exact ih h.2

theorem all_settled (h : Settled s) (htext : nestAll? [] (marks text) = some []) :
    all (s ++ ';' :: '\n' :: ' ' :: text) = all (s ++ [';']) ++ all text := by
  rw [all_below, all_alone]
  refine congrArg (· ++ all text) (filterMap_congr fun found hfound => ?_)
  have hvalue := value?_of_isSettled (h found hfound) htext
  simp only [Function.comp_apply, declared?, followedBy, hvalue]

theorem readsApart_of_settled (h : ∀ s ∈ statements, IsStatement s ∧ Settled s) :
    ReadsApart statements := by
  induction statements with
  | nil => rfl
  | cons s statements ih =>
    rw [forall_mem_cons] at h
    by_cases hnil : statements = []
    · rw [ReadsApart, hnil, statementsText_singleton]
      simp
    · have htext := nestAll?_statementsText fun other hother => (h.2 other hother).1
      rw [ReadsApart, statementsText_cons s hnil, all_settled h.1.2 htext,
        flatMap_cons, ih h.2]

/-- Below a statement with a declaration that is not settled, some statement
changes what is read. -/
theorem exists_not_readsApart (h : ¬ Settled s) :
    ∃ t, IsStatement t ∧ Settled t ∧ ¬ ReadsApart [s, t] := by
  have hunsettled : ∃ found ∈ header.found s,
      isSettled found.1.1 (found.2 ++ [';']) = false := by
    simpa [Settled] using h
  obtain ⟨⟨⟨keyword, name⟩, rest⟩, hfound, hnot⟩ := hunsettled
  have hexists : ∃ t, IsStatement t ∧ header.found t = []
      ∧ declared? ((keyword, name), rest ++ ';' :: '\n' :: ' ' :: (t ++ [';']))
        ≠ declared? ((keyword, name), rest ++ [';']) := by
    cases keyword with
    | typeAlias =>
      exact ⟨assignment ++ ['b'], by decide, found_eq_nil (by decide),
        alias_goes_on hnot name⟩
    | interface => exact interface_goes_on hnot name
  obtain ⟨t, ht, hempty, hdiffers⟩ := hexists
  refine ⟨t, ht, ?_, fun hapart => hdiffers ?_⟩
  · rw [Settled, hempty]
    intro found hmem
    cases hmem
  · rw [ReadsApart, statementsText_cons s (cons_ne_nil _ _), statementsText_singleton,
      all_below] at hapart
    simp only [flatMap_cons, flatMap_nil, append_nil, all_alone s] at hapart
    have hmono : ∀ found ∈ header.found s,
        ((declared? ∘ followedBy [';']) found).isSome = true →
        ((declared? ∘ followedBy (';' :: '\n' :: ' ' :: (t ++ [';']))) found).isSome
          = true :=
      fun found _ hsome => isSome_declared?_below hsome (t ++ [';'])
    exact (filterMap_eq_filterMap_iff hmono).1 (append_cancel_right hapart) _ hfound

/-! ## Where types stand -/

theorem header_suffix {before : Option Char} (h : header before cs = some (found, rest)) :
    rest <:+ cs := by
  unfold header at h
  obtain ⟨⟨keyword, afterKeyword⟩, hkeyword, h⟩ := bind_eq_some_iff.1 h
  obtain ⟨afterBlanks, hblanks, h⟩ := bind_eq_some_iff.1 h
  obtain ⟨⟨name, afterName⟩, hname, h⟩ := bind_eq_some_iff.1 h
  have hafterKeyword : afterKeyword <:+ cs := by
    rcases or_eq_some_iff.1 hkeyword with hword | ⟨-, hword⟩
    · obtain ⟨after, hafter, hpair⟩ := map_eq_some_iff.1 hword
      exact (Prod.mk.inj hpair).2 ▸ word?_suffix hafter
    · obtain ⟨after, hafter, hpair⟩ := map_eq_some_iff.1 hword
      exact (Prod.mk.inj hpair).2 ▸ word?_suffix hafter
  dsimp only at h
  split at h
  · obtain ⟨-, rfl⟩ := Prod.mk.inj (Option.some.inj h)
    exact (name?_suffix hname).trans ((blanks?_suffix hblanks).trans hafterKeyword)
  · cases h

theorem suffix_of_mem_matchesFrom {before : Option Char}
    (h : (found, rest) ∈ header.matchesFrom skip before cs) : rest <:+ cs := by
  fun_induction Pattern.matchesFrom header skip before cs with
  | case1 => cases h
  | case2 skip before c cs ih => exact (ih h).trans (suffix_cons c cs)
  | case3 before c cs found' rest' hfound ih =>
    rcases mem_cons.1 h with heq | h
    · obtain ⟨rfl, rfl⟩ := Prod.mk.inj heq
      exact header_suffix hfound
    · exact (ih h).trans (suffix_cons c cs)
  | case4 before c cs hnone ih => exact (ih h).trans (suffix_cons c cs)

theorem isInfix_trim (cs : List Char) : trim cs <:+: cs := by
  obtain ⟨blanks, hblanks, -⟩ := exists_trimEnd_append (trimStart cs)
  have hbegins : trim cs <+: trimStart cs := ⟨blanks, hblanks.symm⟩
  exact hbegins.isInfix.trans (dropWhile_suffix isBlank).isInfix

/-- A settled type stands in front of the semicolon. -/
theorem isInfix_value? (h : isSettled keyword (rest ++ [';']) = true)
    (hvalue : value? keyword (rest ++ [';']) = some value) : value <:+: rest := by
  cases keyword with
  | typeAlias =>
    by_cases hequals : '=' ∈ rest
    · obtain ⟨before, type, rfl, hbefore⟩ := eq_append_cons_of_mem hequals
      rw [append_assoc, cons_append, isSettled_alias hbefore, bne_iff_ne] at h
      rw [append_assoc, cons_append, value?_alias hbefore] at hvalue
      obtain rfl := Option.some.inj hvalue
      have hbegins : statement true (type ++ [';']) <+: type ++ [';'] := by
        have hfrom := statementFrom_prefix 0 true (marks (type ++ [';']))
        rwa [unmark_marks] at hfrom
      have htype := (prefix_concat_iff.1 hbegins).resolve_left h
      have hsuffix : type <:+ before ++ '=' :: type :=
        (suffix_cons '=' type).trans (List.suffix_append before _)
      exact (isInfix_trim _).trans (htype.isInfix.trans hsuffix.isInfix)
    · have hequals' : '=' ∉ rest ++ [';'] := by simp [hequals]
      rw [(alias_noEquals hequals').1] at hvalue
      cases hvalue
  | interface =>
    rw [value?_interface] at hvalue
    obtain ⟨inside, hinside, hfound⟩ := bind_eq_some_iff.1 hvalue
    obtain ⟨⟨inner, after⟩, henclosed, rfl⟩ := map_eq_some_iff.1 hfound
    obtain ⟨front, hfront⟩ := unmark_of_behindBrace? hinside
    have hclosed : enclosed? ([] ++ ['}']) inside = some (inner, after) := henclosed
    obtain ⟨xs, ys, rfl, -, rfl, rfl⟩ := (enclosed?_eq_some_iff rfl).1 hclosed
    have htext : rest ++ [';'] = front ++ ('{' :: unmark xs ++ ['}']) ++ unmark ys := by
      rw [← unmark_marks (rest ++ [';']), hfront, unmark_append]
      simp [unmark]
    have hstands : '{' :: unmark xs ++ ['}'] <:+: rest ++ [';'] :=
      ⟨front, unmark ys, htext.symm⟩
    -- the type ends in a brace, not in the semicolon
    refine (infix_concat_iff.1 hstands).resolve_left ?_
    rintro ⟨more, hmore⟩
    rw [← append_assoc] at hmore
    cases (append_inj' hmore rfl).2

/-- **Declarations are read statement by statement.** The declarations of
statements one below the other are those of each statement on its own, in
order, and every type stands in the statement that declares it, if the
declarations of each statement are settled in it. A statement with one that
is not settled does not have this property, for below it there can be a
statement that changes what is read. -/
theorem statements_read_apart (statements : List (List Char)) (s : List Char) :
    ((∀ t ∈ statements, IsStatement t ∧ Settled t) →
        ReadsApart statements ∧ ∀ t ∈ statements, ∀ declaration ∈ all (t ++ [';']),
          declaration.2 <:+: t)
      ∧ (¬ Settled s → ∃ t, IsStatement t ∧ Settled t ∧ ¬ ReadsApart [s, t]) := by
  refine ⟨fun h => ⟨readsApart_of_settled h, fun t ht declaration hdeclaration => ?_⟩,
    exists_not_readsApart⟩
  rw [all_alone] at hdeclaration
  obtain ⟨⟨⟨keyword, name⟩, rest⟩, hfound, hdeclared⟩ := mem_filterMap.1 hdeclaration
  obtain ⟨value, hvalue, rfl⟩ := map_eq_some_iff.1 hdeclared
  have hsettled := (h t ht).2 _ hfound
  have hrest : rest <:+ t := suffix_of_mem_matchesFrom hfound
  exact (isInfix_value? hsettled (eq_some_of_filter_eq_some hvalue)).trans hrest.isInfix

/-- An interface with a default for its parameter, and an alias with an
arrow and a semicolon in a literal. -/
def payStatements : List (List Char) :=
  ["export interface PayRequest<T = string> extends Base<T> \x7b amount: number; note: T \x7d".toList,
    "export type PayResponse = Record<'a;b', () => void>".toList]

theorem statements_read_apart_pay :
    ReadsApart payStatements
      ∧ all (statementsText payStatements)
        = [("PayRequest".toList, "\x7b amount: number; note: T \x7d".toList),
          ("PayResponse".toList, "Record<'a;b', () => void>".toList)] :=
  ⟨((statements_read_apart payStatements []).1 (by decide +kernel)).1, by decide +kernel⟩

/-- An import that names a type. -/
def typeImport : List Char :=
  "import \x7b type PayRequest \x7d from './pay'".toList

/-- A type to stand below it. -/
def totalAlias : List Char :=
  "type Total = number".toList

/-- The import declares no type, but it takes the one of the statement
below. -/
theorem type_import_takes_next_type :
    (IsStatement typeImport ∧ ¬ Settled typeImport) ∧ IsStatement totalAlias
      ∧ Settled totalAlias
      ∧ all (typeImport ++ [';']) = []
        ∧ all (totalAlias ++ [';']) = [("Total".toList, "number".toList)]
      ∧ all (statementsText [typeImport, totalAlias])
        = [("PayRequest".toList, "number".toList),
          ("Total".toList, "number".toList)] := by
  decide +kernel

end TypeDeclaration

end TypedContent
