import TypedContent.Proofs.Source.ByteParts
import TypedContent.Proofs.Source.Entries
import TypedContent.Proofs.Source.SquashedLexemes

/-!
# Scanning bytes is safe

Each function of the byte scanner is the function of the same name that
reads characters: its run has a result, and it is the same one. So no loop
goes on forever, no byte is read behind the end, and no slice has bounds out
of order, out of range or inside a character. `byte_scanning_safe` puts this
together.

Squashing goes from lexeme to lexeme. What is written depends on what is
there already and on whether a gap is open (`squashedInto`), and the step
over one lexeme is the step of that function (`squashFrom_lexeme`).
-/

namespace TypedContent

namespace ByteScanner

open List Option Text
open Source (Marked marks unmark lexeme? Lexeme lexemes stretches textOf isQuote Member)

variable {t : Lexeme} {cs rest : List Char}

/-! ## Squashed texts -/

@[simp] theorem spaceOut_nil (space : Bool) : spaceOut [] space = [] := by
  simp [spaceOut]

@[simp] theorem spaceOut_false (out : List Char) : spaceOut out false = out := rfl

theorem spaceOut_true {out : List Char} (h : out ≠ []) :
    spaceOut out true = out ++ [' '] := by
  simp [spaceOut, h]

/-- The text behind `out` once the lexemes `ts` are squashed; `space` tells
that a gap stands in between. -/
def squashedInto (out : List Char) (space : Bool) (ts : List Lexeme) : List Char :=
  if stretches Lexeme.isGap ts = [] then out
  else spaceOut out (space || ts.head?.any Lexeme.isGap)
    ++ textOf ([.code ' '].intercalate (stretches Lexeme.isGap ts))

theorem squashedInto_gap (h : t.isGap = true) (out : List Char) (space : Bool)
    (ts : List Lexeme) :
    squashedInto out space (t :: ts) = squashedInto out true ts := by
  rw [squashedInto, squashedInto, Source.stretches_cons_gap h, head?_cons, any_some, h,
    Bool.or_true, Bool.true_or]

theorem squashedInto_token (h : t.isGap = false) (hne : t.text ≠ []) (out : List Char)
    (space : Bool) (ts : List Lexeme) :
    squashedInto out space (t :: ts)
      = squashedInto (spaceOut out space ++ t.text) false ts := by
  rw [squashedInto, squashedInto, head?_cons, any_some, h, Bool.or_false, Bool.false_or]
  cases hhead : ts.head?.all Lexeme.isGap with
  | true =>
    rw [Source.stretches_cons_last h hhead, if_neg (cons_ne_nil _ _)]
    cases hts : stretches Lexeme.isGap ts with
    | nil => simp [intercalate_singleton]
    | cons stretch rest =>
      have hopen : ts.head?.any Lexeme.isGap = true := by
        cases ts with
        | nil => simp [Source.stretches_nil] at hts
        | cons next ts => exact hhead
      rw [if_neg (cons_ne_nil _ _), hopen, intercalate_cons_cons,
        spaceOut_true (append_ne_nil_of_right_ne_nil _ hne)]
      have hspace : (Lexeme.code ' ').text = [' '] := rfl
      simp [hspace]
  | false =>
    cases ts with
    | nil => cases hhead
    | cons next ts =>
      have hnext : next.isGap = false := hhead
      obtain ⟨stretch, rest, hts, hall⟩ := Source.exists_stretches_cons h hnext ts
      have hjoin : [Lexeme.code ' '].intercalate ((t :: stretch) :: rest)
          = t :: [Lexeme.code ' '].intercalate (stretch :: rest) := by
        cases rest <;> simp [intercalate_singleton, intercalate_cons_cons]
      rw [hall, hts, if_neg (cons_ne_nil _ _), if_neg (cons_ne_nil _ _), hjoin,
        head?_cons, any_some, hnext]
      simp

/-- A lexeme is passed if it is a gap, and otherwise it is written, with a
space in front of it where one is due. -/
theorem squashFrom_lexeme {text before : List Char} (htext : text = before ++ cs)
    (h : lexeme? cs = some (t, rest)) (out : List Char) (space : Bool) :
    squashFrom text out space (byteLength before)
      = if t.isGap then squashFrom text out true (byteLength (before ++ t.text))
        else squashFrom text (spaceOut out space ++ t.text) false
          (byteLength (before ++ t.text)) := by
  have hprecedes := Source.precedes_of_lexeme? h
  have hdrop : (utf8 text).drop (byteLength before) = utf8 cs := by
    rw [htext, utf8_append, ← length_utf8, drop_left]
  have hskip := skipTrivia_of_lexeme? hdrop h
  obtain ⟨rfl, hne⟩ := Source.text_of_lexeme? h
  have hlt : byteLength before < byteLength text := by
    have hpos := byteLength_pos hne
    simp [htext]
    omega
  rw [squashFrom, loop_eq, squashRound, if_pos hlt, hskip, pure_bind, ← byteLength_append]
  cases t with
  | code c =>
    have hrest := sliceFrom_append before (c :: rest)
    replace htext : text = before ++ c :: rest := htext
    rw [← htext] at hrest
    simp only [Lexeme.role, if_pos, hrest, pure_bind, byteLength_append, Lexeme.text,
      byteLength_cons, byteLength_nil, Nat.add_zero]
    have hgap : (Lexeme.code c).isGap = isBlank c := rfl
    rw [hgap]
    cases isBlank c <;> exact pure_bind _ _
  | literal body =>
    have hslice := slice_append before body rest
    rw [append_assoc, ← show text = before ++ (body ++ rest) from htext] at hslice
    obtain ⟨quote, body, rfl, hquote, -⟩ := Source.exists_of_precedes_literal hprecedes
    rw [Lexeme.text, cons_append, utf8_cons_ascii (isQuote_cases hquote).1] at hdrop
    simp only [Lexeme.role, reduceCtorEq, if_false, (of_drop hdrop).2.1, pure_bind,
      if_pos hquote, Lexeme.text, hslice]
    rfl
  | comment body =>
    have hread : byteAt (utf8 text) (byteLength before) = pure '/' := by
      rcases Source.exists_of_precedes_comment hprecedes with ⟨body, rfl, -⟩
        | ⟨body, rfl, -⟩ <;>
        rw [Lexeme.text, cons_append, utf8_cons_ascii (by decide)] at hdrop
          <;> exact (of_drop hdrop).2.1
    simp only [Lexeme.role, reduceCtorEq, if_false, hread, pure_bind]
    exact pure_bind _ _

theorem squashFrom_eq {text before : List Char} (htext : text = before ++ cs)
    (out : List Char) (space : Bool) :
    squashFrom text out space (byteLength before)
      = pure (squashedInto out space (lexemes cs)) := by
  induction cs using Source.lexemes_induction generalizing before out space with
  | nil =>
    refine loop_done ?_
    rw [squashRound, if_neg (by simp [htext]), Source.lexemes_nil, squashedInto,
      Source.stretches_nil, if_pos rfl]
  | @cons cs rest t hread ih =>
    obtain ⟨hcs, hne⟩ := Source.text_of_lexeme? hread
    have hrest : text = before ++ t.text ++ rest := by rw [htext, hcs, append_assoc]
    rw [squashFrom_lexeme htext hread, Source.lexemes_cons hread]
    cases hgap : t.isGap with
    | true => rw [if_pos rfl, ih hrest, squashedInto_gap hgap]
    | false => rw [if_neg (by decide), ih hrest, squashedInto_token hgap hne]

theorem squash_eq (text : List Char) : squash text = pure (Source.squash text) := by
  have htext := Source.textOf_lexemes (Source.squash text)
  rw [Source.lexemes_squash] at htext
  have hsquash := squashFrom_eq (nil_append text).symm [] false
  rw [squashedInto, spaceOut_nil, nil_append, htext] at hsquash
  by_cases hnil : stretches Lexeme.isGap (lexemes text) = []
  · rw [hnil] at htext
    rw [if_pos hnil] at hsquash
    exact hsquash.trans (congrArg pure htext)
  · rw [if_neg hnil] at hsquash
    exact hsquash

/-! ## Gaps in front -/

theorem startsComment_eq (h : lexeme? cs = some (t, rest)) :
    startsComment cs = (t.role == .comment) := by
  have hprecedes := Source.precedes_of_lexeme? h
  obtain ⟨rfl, -⟩ := Source.text_of_lexeme? h
  cases t with
  | code c =>
    obtain ⟨-, hslash⟩ := Source.precedes_code_iff.1 hprecedes
    show startsComment (c :: rest) = false
    by_cases hc : c = '/'
    · cases rest with
      | nil => simp [startsComment, List.isPrefixOf]
      | cons d rest =>
        obtain ⟨hline, hblock⟩ := hslash hc
        have hnext : '/' ≠ d ∧ '*' ≠ d :=
          ⟨fun hd => hline (congrArg some hd.symm),
            fun hd => hblock (congrArg some hd.symm)⟩
        simp [startsComment, List.isPrefixOf, hnext]
    · simp [startsComment, List.isPrefixOf, Ne.symm hc]
  | literal body =>
    obtain ⟨quote, body, rfl, hquote, -⟩ := Source.exists_of_precedes_literal hprecedes
    show startsComment (quote :: (body ++ rest)) = false
    have hslash : '/' ≠ quote := by
      rintro rfl
      cases hquote
    simp [startsComment, List.isPrefixOf, hslash]
  | comment body =>
    rcases Source.exists_of_precedes_comment hprecedes with ⟨body, rfl, -⟩
      | ⟨body, rfl, -⟩ <;> rfl

/-- What stands in front of the first token is dropped lexeme by lexeme. -/
theorem dropGap_of_lexeme? (h : lexeme? cs = some (t, rest)) :
    Source.dropGap cs = if t.isGap then Source.dropGap rest else cs := by
  have hmarks := Source.marks_of_lexeme? h
  cases hgap : t.isGap with
  | true =>
    have hall : ∀ m ∈ t.marks, m.isGap = true :=
      fun m hm => (Lexeme.isGap_of_mem_marks hm).trans hgap
    rw [Source.dropGap, hmarks, dropWhile_append_of_pos hall, if_pos rfl, Source.dropGap]
  | false =>
    obtain ⟨-, hne⟩ := Source.text_of_lexeme? h
    obtain ⟨m, ms, hcons⟩ : ∃ m ms, t.marks = m :: ms :=
      exists_cons_of_ne_nil (by simpa [Lexeme.marks] using hne)
    have hm : m.isGap = false :=
      (Lexeme.isGap_of_mem_marks (hcons ▸ mem_cons_self)).trans hgap
    rw [Source.dropGap, hmarks, hcons, cons_append, dropWhile_cons_of_neg (by simp [hm]),
      ← cons_append, ← hcons, ← hmarks, Source.unmark_marks, if_neg (by decide)]

theorem dropComments_eq (text : List Char) :
    dropComments (trimStart text) = pure (Source.dropGap text) := by
  induction hlength : text.length using Nat.strongRecOn generalizing text with
  | ind n ih =>
    have hle : (trimStart text).length ≤ text.length := (dropWhile_suffix _).length_le
    rw [← Source.dropGap_trimStart, dropComments, loop_eq]
    cases hstart : trimStart text with
    | nil => exact pure_bind _ _
    | cons c cs =>
      obtain ⟨t, rest, hread⟩ := Source.exists_lexeme? c cs
      rw [startsComment_eq hread, dropGap_of_lexeme? hread]
      by_cases hrole : t.role = .comment
      · have hskip := skipTrivia_of_lexeme? drop_zero hread
        rw [hrole, if_neg (by decide), Nat.zero_add] at hskip
        have hshorter : rest.length < n := by
          have hrest := Source.length_of_lexeme? hread
          rw [hstart] at hle
          omega
        obtain ⟨htext, -⟩ := Source.text_of_lexeme? hread
        have hslice := sliceFrom_append t.text rest
        rw [← htext] at hslice
        rw [if_pos (by simp [hrole]), hskip, pure_bind]
        dsimp only [getD_some]
        rw [hslice, pure_bind, pure_bind, Lexeme.isGap_of_role hrole, if_pos rfl]
        exact ih _ hshorter rest rfl
      · have hgap : t.isGap = false := by
          cases t with
          | literal body => rfl
          | comment body => exact absurd rfl hrole
          | code d =>
            obtain ⟨htext, -⟩ := Source.text_of_lexeme? hread
            obtain rfl : c = d := (List.cons.inj htext).1
            exact Source.isBlank_of_trimStart
              (by rw [← hstart]; exact dropWhile_idempotent _ _)
        rw [if_neg (by simpa using hrole), hgap, if_neg (by decide),
          pure_bind, Sum.elim_inr]

theorem dropGap_eq (text : List Char) : dropGap text = pure (Source.dropGap text) :=
  dropComments_eq text

/-! ## Members, string lists and type arguments -/

theorem isAround_cons {quote : Char} (h : isQuote quote = true) (c : Char)
    (rest : List Char) :
    isAround (c :: rest) quote = (c == quote && rest.getLast? == some quote) := by
  cases rest with
  | nil =>
    by_cases hc : c = quote
    · simp [isAround, hc, utf8Size_of_ascii (isQuote_cases h).1]
    · simp [isAround, hc]
  | cons d rest =>
    have hroom : 2 ≤ byteLength (c :: d :: rest) := by
      have hc := c.utf8Size_pos
      have hd := d.utf8Size_pos
      simp only [byteLength_cons]
      omega
    rw [isAround, decide_eq_true hroom, Bool.true_and, head?_cons, getLast?_cons_cons]
    rfl

/-- The quotes around a text are one and the same. -/
theorem any_isAround_cons (c : Char) (rest : List Char) :
    ['\'', '"', '\x60'].any (isAround (c :: rest))
      = (isQuote c && rest.getLast? == some c) := by
  simp only [List.any_cons, List.any_nil, Bool.or_false,
    isAround_cons (show isQuote '\'' = true from rfl),
    isAround_cons (show isQuote '"' = true from rfl),
    isAround_cons (show isQuote '\x60' = true from rfl)]
  cases hquote : isQuote c with
  | true =>
    simp only [isQuote, Bool.or_eq_true, beq_iff_eq] at hquote
    rcases hquote with (rfl | rfl) | rfl <;> simp
  | false =>
    simp only [isQuote, Bool.or_eq_false_iff] at hquote
    simp [hquote]

theorem unquote_eq (text : List Char) : unquote text = pure (Source.unquote text) := by
  rw [unquote, Source.unquote]
  cases htrim : trim text with
  | nil => rfl
  | cons q rest =>
    rw [any_isAround_cons]
    cases haround : (isQuote q && rest.getLast? == some q) with
    | false => simp [haround]
    | true =>
      obtain ⟨hquote, hlast⟩ := Bool.and_eq_true_iff.1 haround
      obtain ⟨inner, rfl⟩ := getLast?_eq_some_iff.1 (eq_of_beq hlast)
      have hslice := slice_append [q] inner [q]
      have hsize := utf8Size_of_ascii (isQuote_cases hquote).1
      have hstop : byteLength (q :: (inner ++ [q])) - 1 = byteLength ([q] ++ inner) := by
        simp only [byteLength_cons, byteLength_append, byteLength_nil, hsize]
        omega
      have hstart : byteLength [q] = 1 := by rw [byteLength_cons, byteLength_nil, hsize]
      rw [hstart] at hslice
      rw [if_pos rfl, hstop]
      simp only [haround, if_pos, dropLast_concat]
      exact hslice

/-- A text cut in two at an offset. -/
theorem slices_append (left right : List Char) :
    slice (left ++ right) 0 (byteLength left) = pure left
      ∧ sliceFrom (left ++ right) (byteLength left) = pure right :=
  ⟨slice_append [] left right, sliceFrom_append left right⟩

theorem splitKey_eq (text : List Char) :
    splitKey text = pure (Source.splitKey? text) := by
  rw [splitKey]
  cases text with
  | nil => exact pure_bind _ _
  | cons c cs =>
    have hstarts : Source.startsKeyQuote (c :: cs) = Source.isKeyQuote c := rfl
    rw [hstarts, Source.splitKey?]
    cases hquote : Source.isKeyQuote c with
    | true =>
      have hskip := skipTrivia_of_lexeme? drop_zero
        (Source.lexeme?_literal (Source.isKeyQuote_cases hquote).2.2 cs)
      rw [Lexeme.role, if_neg (by decide), Nat.zero_add, Lexeme.text] at hskip
      obtain ⟨hkey, hrest⟩ :=
        slices_append (c :: (Source.literalRest c cs).1) (Source.literalRest c cs).2
      rw [cons_append, Source.literalRest_append] at hkey hrest
      rw [if_pos rfl, hskip, pure_bind]
      simp only [hkey, hrest, pure_bind]
      rfl
    | false =>
      rw [if_neg (by decide), if_neg (by decide), pure_bind, offsetOf?]
      cases hcut : cutAt? [':'] (c :: cs) with
      | none => rfl
      | some cut =>
        obtain ⟨key, after⟩ := cut
        obtain ⟨htext, -⟩ := Source.cutAt?_eq_some hcut
        obtain ⟨hkey, hrest⟩ := slices_append key (':' :: after)
        rw [← htext] at hkey hrest
        simp only [map_some, hkey, hrest, pure_bind]

theorem member_eq (entry : List Char) : member entry = pure (Source.member? entry) := by
  rw [member, dropGap_eq, pure_bind]
  dsimp only
  rw [splitKey_eq, pure_bind, Source.member?]
  dsimp only
  generalize Source.splitKey? _ = split
  cases split with
  | none => rfl
  | some split =>
    obtain ⟨key, rest⟩ := split
    simp only [bind_eq_bind, bind_some]
    rcases Source.splitOptional (trim key) (trimStart rest) with ⟨name, isOptional, after⟩
    dsimp only
    cases [':'].isPrefixOf? after with
    | none => rfl
    | some value =>
      simp only [unquote_eq, pure_bind, bind_some]
      split <;> rfl

theorem members_eq (body : List Char) : members body = pure (Source.members body) := by
  rw [members, parts_eq (by decide), pure_bind, funext member_eq, mapM_pure, pure_bind,
    filterMap_map]
  rfl

theorem stringList_eq (text : List Char) :
    stringList text = pure (Source.stringList text) := by
  rw [stringList, parts_eq (by decide), pure_bind, funext unquote_eq,
    mapM_pure, pure_bind]
  rfl

theorem genericParts_eq (text : List Char) :
    genericParts text = pure (Source.genericParts? text) := by
  rw [genericParts, Source.genericParts?, offsetOf?]
  dsimp only
  cases hcut : cutAt? ['<'] (trim text) with
  | none => rfl
  | some cut =>
    obtain ⟨name, rest⟩ := cut
    obtain ⟨htext, -⟩ := Source.cutAt?_eq_some hcut
    obtain ⟨hname, -⟩ := slices_append name ('<' :: rest)
    have hrest : sliceFrom (trim text) (byteLength name + 1) = pure rest := by
      have hslice := sliceFrom_append (name ++ ['<']) rest
      rw [← append_cons, ← htext, byteLength_append] at hslice
      exact hslice
    rw [← htext] at hname
    simp only [map_some, hrest, pure_bind]
    cases ['>'].isSuffixOf? rest with
    | none => rfl
    | some args =>
      simp only [hname, parts_eq (show ∀ c ∈ [','], c.toNat < 128 by decide), pure_bind]
      rfl

/-! ## Safety -/

/-- **Scanning bytes is safe, and it always advances.** What is skipped from
any offset of a text on reaches to a boundary further on. Hence the scanner
has a result, and the result of reading the characters: from every offset to
start at, for every byte to look for and for all separators of ASCII. -/
theorem byte_scanning_safe (text : List Char) :
    (∀ pos, pos < byteLength text → ∃ found, skipTrivia (utf8 text) pos = pure found
      ∧ ∀ next ∈ found, pos < next ∧ next ≤ byteLength text ∧ IsBoundary text next)
    ∧ (∀ start, closeOffset text start = pure (Source.closeOffset? text start))
    ∧ (∀ start opener, blockFrom text start opener
      = pure ((Source.blockFrom? text start opener).map fun b =>
        (b.inner, b.start, b.stop)))
    ∧ (∀ separators : List Char, (∀ c ∈ separators, c.toNat < 128) →
      parts text separators = pure (Source.parts separators text))
    ∧ (∀ start, statementEnd text start = pure (Source.statementEnd text start))
    ∧ squash text = pure (Source.squash text)
    ∧ dropGap text = pure (Source.dropGap text)
    ∧ unquote text = pure (Source.unquote text)
    ∧ members text = pure (Source.members text)
    ∧ stringList text = pure (Source.stringList text)
    ∧ genericParts text = pure (Source.genericParts? text) :=
  ⟨fun _ => skipTrivia_advances, closeOffset_eq text, blockFrom_eq text,
    fun _ hascii => parts_eq hascii text,
    statementEnd_eq text, squash_eq text, dropGap_eq text, unquote_eq text,
      members_eq text, stringList_eq text,
    genericParts_eq text⟩

/-- The escape in the literal leads into the middle of a character, and the
bracket behind it does not count. -/
theorem byte_scanning_safe_escaped :
    let text := "\x7b'\\é\x7d'\x7d,é".toList
    1 < byteLength text ∧ (∃ found, skipTrivia (utf8 text) 1 = pure found
      ∧ ∀ next ∈ found, 1 < next ∧ next ≤ byteLength text ∧ IsBoundary text next)
    ∧ closeOffset text 0 = pure (some 7)
    ∧ (∀ c ∈ [','], c.toNat < 128)
    ∧ parts text [','] = pure ["\x7b'\\é\x7d'\x7d".toList, ['é']] := by
  intro text
  obtain ⟨hskip, hclose, -, hparts, -⟩ := byte_scanning_safe text
  have hascii : ∀ c ∈ [','], c.toNat < 128 := by decide
  exact ⟨by decide, hskip 1 (by decide), (hclose 0).trans (by rfl), hascii, (hparts _
    hascii).trans (by rfl)⟩

end ByteScanner

end TypedContent
