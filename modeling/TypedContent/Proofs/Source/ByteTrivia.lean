import TypedContent.Proofs.Source.ByteScanner
import TypedContent.Proofs.Source.Lexemes

/-!
# Literals and comments as bytes

A loop at offset `i` is about what is left there, `bytes.drop i`, and where
it ends is told by what is left then. The loops that look for the end of a
literal or of a comment compare with characters of ASCII only. So they pass
the bytes of any other character (`pass_bytes`), also when an escape has led
into the middle of one, and they come to the end that the reading by
characters has.

Hence what is skipped at a boundary is the lexeme there
(`skipTrivia_of_lexeme?`), and inside a character nothing is skipped
(`skipTrivia_high`).
-/

namespace TypedContent

namespace ByteScanner

open List Text
open Source (isQuote literalRest Lexeme lexeme? lineRest blockRest)

variable {quote c : Char} {bytes bs cs : List Char} {i : Nat}

/-! ## Checks that succeed -/

theorem of_drop (h : bytes.drop i = c :: cs) :
    i < bytes.length ∧ byteAt bytes i = pure c ∧ bytes.drop (i + 1) = cs := by
  have hlt : i < bytes.length := Nat.lt_of_not_le fun hle => by
    simp [drop_of_length_le hle] at h
  rw [drop_eq_getElem_cons hlt] at h
  obtain ⟨hc, hcs⟩ := List.cons.inj h
  exact ⟨hlt, by rw [byteAt, getElem?_eq_getElem hlt, hc], hcs⟩

theorem drop_add (h : bytes.drop i = bs ++ cs) : bytes.drop (i + bs.length) = cs := by
  rw [← drop_drop, h, drop_left]

/-- A loop passes bytes if it passes each of them. -/
theorem pass_bytes {α : Type} {loop : Nat → α} {P : Char → Prop}
    (hstep : ∀ i b bs, bytes.drop i = b :: bs → P b → loop i = loop (i + 1))
    (h : bytes.drop i = bs ++ cs) (hbs : ∀ b ∈ bs, P b) :
    loop i = loop (i + bs.length) := by
  induction bs generalizing i with
  | nil => rfl
  | cons b bs ih =>
    obtain ⟨hb, hrest⟩ := forall_mem_cons.1 hbs
    rw [hstep i b _ h hb, ih (of_drop h).2.2 hrest, length_cons, Nat.add_assoc,
      Nat.add_comm 1]

theorem slice_append (left text right : List Char) :
    slice (left ++ text ++ right) (byteLength left) (byteLength (left ++ text))
      = pure text := by
  have hstart : IsBoundary (left ++ text ++ right) (byteLength left) := by
    rw [append_assoc]
    exact isBoundary_append left (text ++ right)
  have hlength : byteLength (left ++ text) - byteLength left = byteLength text := by simp
  rw [slice, if_pos ⟨by simp, hstart, isBoundary_append (left ++ text) right⟩, hlength,
    append_assoc, dropBytes_append, takeBytes_append]

theorem sliceFrom_append (left right : List Char) :
    sliceFrom (left ++ right) (byteLength left) = pure right := by
  have hslice := slice_append left right []
  rwa [append_nil] at hslice

/-! ## Literals -/

theorem isQuote_cases (h : isQuote quote = true) : quote.toNat < 128 ∧ quote ≠ '\\' := by
  simp only [isQuote, Bool.or_eq_true, beq_iff_eq] at h
  rcases h with (rfl | rfl) | rfl <;> decide

theorem literalEnd_step (i : Nat) (b : Char) (bs : List Char)
    (h : bytes.drop i = b :: bs) (hb : b ≠ '\\' ∧ b ≠ quote) :
    literalEnd bytes quote i = literalEnd bytes quote (i + 1) := by
  obtain ⟨hlt, hread, -⟩ := of_drop h
  refine loop_step ?_
  rw [if_pos hlt, hread, pure_bind, if_neg hb.1, if_neg hb.2]

theorem literalEnd_escape (h : bytes.drop i = '\\' :: cs) :
    literalEnd bytes quote i = literalEnd bytes quote (i + 2) := by
  obtain ⟨hlt, hread, -⟩ := of_drop h
  refine loop_step ?_
  rw [if_pos hlt, hread, pure_bind, if_pos rfl]

theorem literalEnd_of_le (h : bytes.length ≤ i) :
    literalEnd bytes quote i = pure bytes.length :=
  loop_done (if_neg (Nat.not_lt.2 h))

theorem literalEnd_eq (hquote : isQuote quote = true) (h : bytes.drop i = utf8 cs) :
    literalEnd bytes quote i = pure
      (bytes.length - byteLength (literalRest quote cs).2) := by
  obtain ⟨hascii, hne⟩ := isQuote_cases hquote
  fun_induction literalRest quote cs generalizing i with
  | case1 =>
    rw [utf8_nil] at h
    exact literalEnd_of_le (drop_eq_nil_iff.1 h)
  | case2 c cs body rest hbody ih =>
    -- two bytes on, the loop may be inside the character that is escaped
    obtain ⟨b, more, hcons, hmore⟩ := exists_encoding_cons c
    rw [utf8_cons_ascii (by decide), utf8_cons, hcons] at h
    have hafter := (of_drop (of_drop h).2.2).2.2
    rw [literalEnd_escape h, pass_bytes literalEnd_step hafter fun x hx =>
      ⟨ne_ascii (hmore x hx) (by decide), ne_ascii (hmore x hx) hascii⟩,
      ih (drop_add hafter), hbody]
  | case3 cs hnot =>
    rw [utf8_cons_ascii hascii] at h
    obtain ⟨hlt, hread, hnext⟩ := of_drop h
    refine loop_done ?_
    rw [if_pos hlt, hread, pure_bind, if_neg hne,
      if_pos rfl, ← length_utf8, ← hnext, length_drop]
    exact congrArg (pure ∘ Sum.inr) (by omega)
  | case4 c cs hnot hc body rest hbody ih =>
    by_cases hlast : c = '\\'
    · -- an escape that ends the text takes the loop beyond its end
      obtain rfl : cs = [] := by
        cases cs with
        | nil => rfl
        | cons d cs => exact absurd rfl (hnot d cs hlast)
      obtain ⟨-, rfl⟩ := Prod.mk.inj hbody
      rw [hlast, utf8_cons_ascii (by decide), utf8_nil] at h
      have hend := drop_eq_nil_iff.1 (of_drop h).2.2
      rw [literalEnd_escape h, literalEnd_of_le (by omega)]
      rfl
    · rw [utf8_cons] at h
      rw [pass_bytes literalEnd_step h fun b hb =>
        ⟨ne_of_mem_encoding (by decide) hlast b hb, ne_of_mem_encoding hascii hc b hb⟩,
          ih (drop_add h), hbody]

/-! ## Comments -/

/-- The first line feed, as the number of bytes up to and including it. -/
theorem findIdx?_lineFeed (cs : List Char) :
    ((utf8 cs).findIdx? (· == '\n')).elim (byteLength cs) (· + 1)
      = byteLength (lineRest cs).1 := by
  fun_induction lineRest cs with
  | case1 => simp
  | case2 cs => rw [utf8_cons_ascii (by decide)]; rfl
  | case3 c cs hc ih =>
    have hnone : (encoding c).findIdx? (· == '\n') = none :=
      findIdx?_eq_none_iff.2 fun b hb =>
        beq_eq_false_iff_ne.2 (ne_of_mem_encoding (by decide) hc b hb)
    rw [utf8_cons, findIdx?_append, hnone, Option.none_or, byteLength_cons,
      byteLength_cons, ← ih]
    cases (utf8 cs).findIdx? (· == '\n') with
    | none => rfl
    | some distance =>
      simp only [Option.map_some, Option.elim_some, length_encoding]
      omega

theorem lineEnd_eq (hle : i ≤ bytes.length) (h : bytes.drop i = utf8 cs) :
    lineEnd bytes i = pure (bytes.length - byteLength (lineRest cs).2) := by
  have hline := findIdx?_lineFeed cs
  have hsplit := congrArg byteLength (Source.lineRest_append cs)
  have hlength := congrArg List.length h
  rw [byteLength_append] at hsplit
  rw [length_drop, length_utf8] at hlength
  rw [lineEnd, if_pos hle, h]
  cases hfound : (utf8 cs).findIdx? (· == '\n') with
  | none =>
    rw [hfound, Option.elim_none] at hline
    exact congrArg pure (by omega)
  | some distance =>
    rw [hfound, Option.elim_some] at hline
    exact congrArg pure (by omega)

theorem blockCommentEnd_of_le (h : bytes.length ≤ i + 1) :
    blockCommentEnd bytes i = pure bytes.length :=
  loop_done (if_neg (Nat.not_lt.2 h))

/-- A byte is passed unless it closes the comment together with the next
one. -/
theorem blockCommentEnd_step (h : bytes.drop i = c :: cs)
    (hopen : c = '*' → cs.head? ≠ some '/') :
    blockCommentEnd bytes i = blockCommentEnd bytes (i + 1) := by
  obtain ⟨-, hread, hnext⟩ := of_drop h
  cases cs with
  | nil =>
    have hend := drop_eq_nil_iff.1 hnext
    rw [blockCommentEnd_of_le hend, blockCommentEnd_of_le (Nat.le_succ_of_le hend)]
  | cons d cs =>
    obtain ⟨hlt', hread', -⟩ := of_drop hnext
    have hnot : ¬ (c = '*' ∧ d = '/') :=
      fun hclose => hopen hclose.1 (by rw [head?_cons, hclose.2])
    refine loop_step ?_
    rw [if_pos hlt', hread, pure_bind, hread', pure_bind, if_neg hnot]

theorem blockCommentEnd_eq (h : bytes.drop i = utf8 cs) :
    blockCommentEnd bytes i = pure (bytes.length - byteLength (blockRest cs).2) := by
  fun_induction blockRest cs generalizing i with
  | case1 =>
    rw [utf8_nil] at h
    exact blockCommentEnd_of_le (Nat.le_succ_of_le (drop_eq_nil_iff.1 h))
  | case2 cs =>
    rw [utf8_cons_ascii (by decide), utf8_cons_ascii (by decide)] at h
    obtain ⟨-, hstar, hnext⟩ := of_drop h
    obtain ⟨hlt, hslash, hafter⟩ := of_drop hnext
    refine loop_done ?_
    rw [if_pos hlt, hstar, pure_bind, hslash, pure_bind,
      if_pos ⟨rfl, rfl⟩, ← length_utf8, ← hafter, length_drop]
    exact congrArg (pure ∘ Sum.inr) (by omega)
  | case3 c cs hopen ih =>
    by_cases hstar : c = '*'
    · subst hstar
      rw [utf8_cons_ascii (by decide)] at h
      have hslash : (utf8 cs).head? ≠ some '/' := fun hhead => by
        obtain ⟨rest, rfl⟩ := head?_eq_some_iff.1 ((head?_utf8 (by decide) cs).1 hhead)
        exact hopen rest rfl rfl
      rw [blockCommentEnd_step h fun _ => hslash, ih (of_drop h).2.2]
    · rw [utf8_cons] at h
      have hstep (i : Nat) (b : Char) (bs : List Char) (h : bytes.drop i = b :: bs)
          (hb : b ≠ '*') :
          blockCommentEnd bytes i = blockCommentEnd bytes (i + 1) :=
        blockCommentEnd_step h fun hstar => absurd hstar hb
      rw [pass_bytes hstep h (ne_of_mem_encoding (by decide) hstar), ih (drop_add h)]

/-! ## Skipping -/

theorem skipTrivia_eq_none (h : bytes.drop i = c :: cs) (hquote : isQuote c = false)
    (hslash : c = '/' → cs.head? ≠ some '/' ∧ cs.head? ≠ some '*') :
    skipTrivia bytes i = pure none := by
  obtain ⟨-, hread, hnext⟩ := of_drop h
  rw [skipTrivia, hread, pure_bind, if_neg (by simp [hquote])]
  by_cases hc : c = '/'
  · rw [if_pos hc, ← head?_drop, hnext, if_neg (hslash hc).1, if_neg (hslash hc).2]
  · rw [if_neg hc]

theorem skipTrivia_high (h : bytes.drop i = c :: cs) (hc : 128 ≤ c.toNat) :
    skipTrivia bytes i = pure none :=
  skipTrivia_eq_none h (Bool.eq_false_iff.2 fun hquote =>
    absurd hc (Nat.not_le.2 (isQuote_cases hquote).1))
    fun hslash => absurd hslash (ne_ascii hc (by decide))

/-- At a boundary, the lexeme that starts there is skipped unless it belongs
to the code. -/
theorem skipTrivia_of_lexeme? {t : Lexeme} {rest : List Char} (h : bytes.drop i = utf8 cs)
    (hread : lexeme? cs = some (t, rest)) :
    skipTrivia bytes i = pure (if t.role = .code then none
      else some (i + byteLength t.text)) := by
  have hprecedes := Source.precedes_of_lexeme? hread
  obtain ⟨rfl, hne⟩ := Source.text_of_lexeme? hread
  have hstop : i + byteLength t.text = bytes.length - byteLength rest := by
    have hpos := byteLength_pos hne
    have hlength := congrArg List.length h
    rw [length_drop, length_utf8, byteLength_append] at hlength
    omega
  rw [hstop]
  cases t with
  | code c =>
    obtain ⟨hquote, hslash⟩ := Source.precedes_code_iff.1 hprecedes
    replace h : bytes.drop i = utf8 (c :: rest) := h
    rcases encoding_cases c with ⟨hascii, -⟩ | ⟨-, hbytes⟩
    · rw [utf8_cons_ascii hascii] at h
      refine skipTrivia_eq_none h hquote fun hc => ?_
      simpa only [Ne, head?_utf8 (show '/'.toNat < 128 by decide),
        head?_utf8 (show '*'.toNat < 128 by decide)]
        using hslash hc
    · obtain ⟨b, more, hcons, -⟩ := exists_encoding_cons c
      rw [utf8_cons, hcons] at h
      exact skipTrivia_high h (hbytes b (hcons ▸ mem_cons_self))
  | literal text =>
    obtain ⟨quote, body, rfl, hquote, hbody⟩ :=
      Source.exists_of_precedes_literal hprecedes
    replace h : bytes.drop i = utf8 (quote :: (body ++ rest)) := h
    rw [utf8_cons_ascii (isQuote_cases hquote).1] at h
    obtain ⟨-, hbyte, hnext⟩ := of_drop h
    rw [skipTrivia, hbyte, pure_bind, if_pos hquote, literalEnd_eq hquote hnext,
      hbody, pure_bind]
    rfl
  | comment text =>
    rcases Source.exists_of_precedes_comment hprecedes with ⟨body, rfl, hbody⟩
      | ⟨body, rfl, hbody⟩
    · replace h : bytes.drop i = utf8 ('/' :: '/' :: (body ++ rest)) := h
      have hline : (lineRest ('/' :: '/' :: (body ++ rest))).2 = rest := by
        simp [lineRest, hbody]
      have hend := fun hle => lineEnd_eq hle h
      rw [utf8_cons_ascii (by decide), utf8_cons_ascii (by decide)] at h
      obtain ⟨hlt, hbyte, hnext⟩ := of_drop h
      rw [skipTrivia, hbyte, pure_bind, if_neg (by decide), if_pos rfl, ← head?_drop,
        hnext, head?_cons, if_pos rfl, hend (Nat.le_of_lt hlt), hline, pure_bind]
      rfl
    · replace h : bytes.drop i = utf8 ('/' :: '*' :: (body ++ rest)) := h
      rw [utf8_cons_ascii (by decide), utf8_cons_ascii (by decide)] at h
      obtain ⟨-, hbyte, hnext⟩ := of_drop h
      rw [skipTrivia, hbyte, pure_bind, if_neg (by decide), if_pos rfl, ← head?_drop,
        hnext, head?_cons, if_neg (by decide), if_pos rfl,
        blockCommentEnd_eq (of_drop hnext).2.2, hbody, pure_bind]
      rfl

/-- Wherever it is tried, skipping comes to an end, and what is skipped
reaches to a boundary further on. -/
theorem skipTrivia_advances {pos : Nat} (h : pos < byteLength cs) :
    ∃ found, skipTrivia (utf8 cs) pos = pure found
      ∧ ∀ next ∈ found, pos < next ∧ next ≤ byteLength cs ∧ IsBoundary cs next := by
  obtain ⟨inside, hdrop, hinside, htake⟩ := exists_drop_utf8 pos cs
  have hcs := takeBytes_append_dropBytes pos cs
  cases inside with
  | cons b inside => exact ⟨none, skipTrivia_high hdrop (hinside b mem_cons_self), nofun⟩
  | nil =>
    rw [nil_append] at hdrop
    rw [length_nil, Nat.add_zero, Nat.min_eq_left (Nat.le_of_lt h)] at htake
    cases hrest : dropBytes pos cs with
    | nil =>
      rw [hrest, utf8_nil, drop_eq_nil_iff, length_utf8] at hdrop
      omega
    | cons c rest =>
      obtain ⟨t, after, hread⟩ := Source.exists_lexeme? c rest
      obtain ⟨htext, hne⟩ := Source.text_of_lexeme? hread
      rw [hrest] at hdrop
      refine ⟨_, skipTrivia_of_lexeme? hdrop hread, fun next hnext => ?_⟩
      obtain rfl : byteLength (takeBytes pos cs ++ t.text) = next := by
        rw [byteLength_append, htake]
        split at hnext
        · cases hnext
        · exact Option.some.inj hnext
      have hsplit : takeBytes pos cs ++ t.text ++ after = cs := by
        rw [append_assoc, ← htext, ← hrest, hcs]
      have hboundary := isBoundary_append (takeBytes pos cs ++ t.text) after
      have hpos := byteLength_pos hne
      have hlength := congrArg byteLength hsplit
      rw [hsplit] at hboundary
      rw [byteLength_append] at hlength
      exact ⟨by rw [byteLength_append]; omega, by omega, hboundary⟩

end ByteScanner

end TypedContent
