import TypedContent.Proofs.Lists
import TypedContent.Proofs.Output.PathParameters
import TypedContent.Proofs.TypeScript.ParsedTypes
import TypedContent.Proofs.TypeScript.TemplateLiterals

/-!
# Paths of requests

The path of a request is written as an expression: a double-quoted literal
if the path has no parameters, and a template otherwise. `Path.filled?` says
what should be sent, the path with the encoded values in place of its
parameters, and `Alphabet.evaluate?` what the expression evaluates to.

A literal is escaped but for line breaks. In a template only the back quote
is escaped, so a backslash, a return or the beginning of a substitution in
the path is read as something else (`Path.Survives`). Without these the two
sides agree, character by character and parameter by parameter
(`template?_templateText`). With them there are values for which they
differ: values that are as long as the substitutions they stand for. With
such values a backslash makes the template too long for what it evaluates to
(`not_mem_backslash`), and each of the others shows where it stands
(`survives_of_template?`).
-/

namespace TypedContent

open Text TypeScript

variable {rest path : List Char} {units : List Nat}

/-! ## What is sent -/

/-- What a piece of a path contributes, given the values of the
parameters. -/
def PathPiece.filled? (values : List Char → List Nat) : PathPiece → Option (List Nat)
  | literal text => some (codeUnits text)
  | param name => encodeUriComponent? (values name)

/-- The pieces of a path with the encoded values in place of the
parameters. -/
def filledPieces? (values : List Char → List Nat)
    (pieces : List PathPiece) : Option (List Nat) :=
  (pieces.mapM (PathPiece.filled? values)).map List.flatten

/-- A path with the encoded values in place of its parameters. -/
def Path.filled? (values : List Char → List Nat) (path : List Char) : Option (List Nat) :=
  filledPieces? values (Path.pieces path)

/-- The value of an expression that is one literal, double-quoted or a
template. -/
def TypeScript.Alphabet.evaluate? (a : Alphabet)
    (values : List Char → List Nat) : List Char → Option (List Nat)
  | [] => none
  | c :: cs =>
    (if c = '"' then scanBody cs else if c = '\x60' then a.template? values cs
      else none).bind fun (units, rest) =>
      if rest = [] then some units else none

theorem filledPieces?_param (values : List Char → List Nat) (name : List Char)
    (pieces : List PathPiece) :
    filledPieces? values (.param name :: pieces)
      = (encodeUriComponent? (values name)).bind fun units =>
        (filledPieces? values pieces).map (units ++ ·) := by
  cases hvalue : encodeUriComponent? (values name)
    <;> cases hpieces : pieces.mapM (PathPiece.filled? values) <;>
    simp [filledPieces?, PathPiece.filled?, List.mapM_cons, hvalue, hpieces]

theorem filledPieces?_literal (values : List Char → List Nat) (text : List Char)
    (pieces : List PathPiece) :
    filledPieces? values (.literal text :: pieces)
      = (filledPieces? values pieces).map (codeUnits text ++ ·) := by
  cases hpieces : pieces.mapM (PathPiece.filled? values) <;>
    simp [filledPieces?, PathPiece.filled?, List.mapM_cons, hpieces]

theorem filledPieces?_consLiteral (values : List Char → List Nat) (c : Char)
    (pieces : List PathPiece) :
    filledPieces? values (Path.consLiteral c pieces)
      = (filledPieces? values pieces).map (unitsOf c.toNat ++ ·) := by
  have hone : codeUnits [c] = unitsOf c.toNat := by
    rw [codeUnits_cons, codeUnits_nil, List.append_nil]
  unfold Path.consLiteral
  split
  · rename_i text pieces
    rw [filledPieces?_literal, filledPieces?_literal, Option.map_map, codeUnits_cons]
    simp [Function.comp_def]
  · rw [filledPieces?_literal, hone]

/-! ## What is written -/

/-- The spelling of a character in a template. -/
def templateChar (c : Char) : List Char :=
  if c = '\x60' then ['\\', '\x60'] else [c]

/-- The template of a path, between its back quotes. -/
def templateText (pieces : List PathPiece) : List Char :=
  (Expr.renderPieces (pieces.map PathPiece.template)).toList

theorem templateText_nil : templateText [] = [] := rfl

theorem templateText_literal (text : List Char) (pieces : List PathPiece) :
    templateText (.literal text :: pieces)
      = text.flatMap templateChar ++ templateText pieces := by
  simp only [templateText, List.map_cons, PathPiece.template, Expr.renderPieces,
    escapeTemplate, String.toList_append, String.toList_ofList]
  rfl

theorem templateText_param (name : List Char) (pieces : List PathPiece) :
    templateText (.param name :: pieces)
      = '$' :: (substitution name ++ templateText pieces) := by
  have hbefore : beforeParam
      = '\x7b' :: ("encodeURIComponent" ++ "(" ++ "String" ++ "(" ++ "params"
        ++ ".").toList := by
    decide
  simp only [templateText, List.map_cons, PathPiece.template, Expr.renderPieces,
    encoded, Expr.apply, Expr.render, Expr.renderExprs, Text.joinWith, substitution,
    hbefore, behindParam]
  simp only [String.toList_append, String.toList_ofList, List.append_assoc,
    String.toList_empty, List.nil_append, List.cons_append]
  rfl

theorem templateText_consLiteral (c : Char) (pieces : List PathPiece) :
    templateText (Path.consLiteral c pieces) = templateChar c ++ templateText pieces := by
  unfold Path.consLiteral
  split <;> simp [templateText_literal]

/-! ## Paths that survive -/

namespace Path

/-- What a path must not have if it is to survive in a template: a
backslash, a return, the beginning of a substitution and a parameter that is
no word of the language. -/
structure Survives (a : Alphabet) (path : List Char) : Prop where
  backslash : '\\' ∉ path
  carriageReturn : '\r' ∉ path
  substitution : ¬ ['$', '\x7b'] <:+: path
  words : ∀ name ∈ params path, a.isWord (String.ofList name) = true

variable {a : Alphabet}

theorem survives_nil : Survives a [] := by
  refine ⟨by simp, by simp, by simp, ?_⟩
  intro name hname
  cases hname

theorem survives_param {name : List Char}
    (h : paramAt? (':' :: (name ++ rest)) = some name) :
    Survives a (':' :: (name ++ rest))
      ↔ a.isWord (String.ofList name) = true ∧ Survives a rest := by
  have hword := isWord_of_paramAt? h
  have hnot : ∀ c, isWord c = false → c ≠ ':' → c ∉ ':' :: name := by
    intro c hc hcolon hmem
    rcases List.mem_cons.1 hmem with rfl | hmem
    · exact hcolon rfl
    · rw [hword c hmem] at hc
      cases hc
  have hmem :
      ∀ c, isWord c = false → c ≠ ':' → (c ∉ ':' :: (name ++ rest) ↔ c ∉ rest) := by
    intro c hc hcolon
    rw [← List.cons_append, List.mem_append, not_or]
    exact and_iff_right (hnot c hc hcolon)
  have hdollar : ['$', '\x7b'] <:+: ':' :: (name ++ rest) ↔ ['$', '\x7b'] <:+: rest := by
    have hnone := hnot '$' (by decide) (by decide)
    rw [← List.cons_append, infix_pair_append]
    constructor
    · rintro (hopens | hopens | ⟨hlast, -⟩)
      · exact absurd (hopens.subset List.mem_cons_self) hnone
      · exact hopens
      · exact absurd (List.mem_of_getLast? hlast) hnone
    · exact fun hopens => .inr (.inl hopens)
  have hparams := params_param h
  constructor
  · rintro ⟨hslash, hreturn, hopens, hwords⟩
    rw [hparams, List.forall_mem_cons] at hwords
    exact ⟨hwords.1, (hmem _ (by decide) (by decide)).1 hslash,
      (hmem _ (by decide) (by decide)).1 hreturn,
      fun h => hopens (hdollar.2 h), hwords.2⟩
  · rintro ⟨hname, hslash, hreturn, hopens, hwords⟩
    refine ⟨(hmem _ (by decide) (by decide)).2 hslash,
      (hmem _ (by decide) (by decide)).2 hreturn,
      fun h => hopens (hdollar.1 h), ?_⟩
    rw [hparams, List.forall_mem_cons]
    exact ⟨hname, hwords⟩

theorem survives_char {c : Char} {cs : List Char} (h : paramAt? (c :: cs) = none) :
    Survives a (c :: cs) ↔ c ≠ '\\' ∧ c ≠ '\r' ∧ ¬ (c = '$' ∧ cs.head? = some '\x7b')
      ∧ Survives a cs := by
  have hparams := params_char h
  have hdollar : ['$', '\x7b'] <:+: c :: cs
      ↔ (c = '$' ∧ cs.head? = some '\x7b') ∨ ['$', '\x7b'] <:+: cs := by
    have hone : ¬ ['$', '\x7b'] <:+: [c] :=
      fun hopens => absurd hopens.length_le (by simp)
    rw [← List.singleton_append (x := c), infix_pair_append, List.getLast?_singleton,
      Option.some.injEq, or_iff_right hone, or_comm]
  constructor
  · rintro ⟨hslash, hreturn, hopens, hwords⟩
    rw [List.mem_cons, not_or] at hslash hreturn
    rw [hdollar, not_or] at hopens
    exact ⟨Ne.symm hslash.1, Ne.symm hreturn.1, hopens.1, hslash.2, hreturn.2, hopens.2,
      hparams ▸ hwords⟩
  · rintro ⟨hc, hc', hhead, hslash, hreturn, hopens, hwords⟩
    refine ⟨?_, ?_, ?_, hparams ▸ hwords⟩
    · exact List.not_mem_cons_of_ne_of_not_mem (Ne.symm hc) hslash
    · exact List.not_mem_cons_of_ne_of_not_mem (Ne.symm hc') hreturn
    · rw [hdollar, not_or]
      exact ⟨hhead, hopens⟩

end Path

/-! ## Reading the template -/

section

variable {a : Alphabet} {values : List Char → List Nat}

theorem template?_templateChar {c : Char} {cs : List Char} (hslash : c ≠ '\\')
    (hreturn : c ≠ '\r') (hdollar : ¬ (c = '$' ∧ cs.head? = some '\x7b')) :
    a.template? values (templateChar c ++ cs)
      = (a.template? values cs).map fun (more, after) =>
        (unitsOf c.toNat ++ more, after) := by
  unfold templateChar
  split
  · rename_i hquote
    subst hquote
    rw [List.cons_append, Alphabet.template?_element (by decide)]
    rfl
  · rename_i hquote
    exact Alphabet.template?_plain hquote hslash hreturn hdollar

theorem head?_templateText (path rest : List Char) :
    (templateText (Path.pieces path) ++ '\x60' :: rest).head? = some '\x7b'
      ↔ path.head? = some '\x7b' := by
  induction path using Path.induction with
  | nil => simp [Path.pieces, Path.piecesFrom, templateText_nil]
  | param name cs hname ih => simp [Path.pieces_param hname, templateText_param]
  | char c cs hnone ih =>
    rw [Path.pieces_char hnone, templateText_consLiteral, templateChar]
    split
    · rename_i hquote
      subst hquote
      simp
    · rfl

/-- The template of a path that survives evaluates to the path with the
encoded values. -/
theorem template?_templateText (h : Path.Survives a path) (rest : List Char) :
    a.template? values (templateText (Path.pieces path) ++ '\x60' :: rest)
      = (Path.filled? values path).map fun units => (units, rest) := by
  induction path using Path.induction with
  | nil => exact Alphabet.template?_end rest
  | param name cs hname ih =>
    obtain ⟨hword, hcs⟩ := (Path.survives_param hname).1 h
    have hhead :
        (substitution name ++ (templateText (Path.pieces cs) ++ '\x60' :: rest)).head?
          = some '\x7b' := rfl
    rw [Path.filled?, Path.pieces_param hname, templateText_param, filledPieces?_param,
      List.cons_append, List.append_assoc, Alphabet.template?_dollar hhead,
      Alphabet.substitution?_of_isWord hword, Option.bind_some]
    dsimp only
    rw [ih hcs, Path.filled?]
    cases encodeUriComponent? (values name) with
    | none => rfl
    | some units => cases filledPieces? values (Path.pieces cs) <;> rfl
  | char c cs hnone ih =>
    obtain ⟨hslash, hreturn, hdollar, hcs⟩ := (Path.survives_char hnone).1 h
    have hdollar' :
        ¬ (c = '$' ∧ (templateText (Path.pieces cs) ++ '\x60' :: rest).head?
          = some '\x7b') := by
      rwa [head?_templateText]
    rw [Path.filled?, Path.pieces_char hnone, templateText_consLiteral,
      filledPieces?_consLiteral, List.append_assoc, template?_templateChar hslash
      hreturn hdollar', ih hcs, Path.filled?, Option.map_map, Option.map_map]
    rfl

end

/-! ## Values that tell paths apart -/

/-- For each parameter a value that is as long as the substitution. -/
def filler (name : List Char) : List Nat :=
  List.replicate (codeUnits ('$' :: substitution name)).length 97

theorem fills_filler : Alphabet.Fills filler := by
  intro name
  exact ⟨filler name, encodeUriComponent?_replicate _, List.length_replicate⟩

theorem exists_filler (name : List Char) :
    ∃ more, encodeUriComponent? (filler name) = some (97 :: more) := by
  refine ⟨List.replicate (codeUnits (substitution name)).length 97, ?_⟩
  have hlength : (codeUnits ('$' :: substitution name)).length
      = (codeUnits (substitution name)).length + 1 := by
    rw [codeUnits_cons, List.length_append, Nat.add_comm]
    rfl
  rw [filler, encodeUriComponent?_replicate, hlength, List.replicate_succ]

/-- The length of the template of a path, with values that are as long as
the substitutions: each back quote is written with one more character, and
each backslash as it is. -/
theorem exists_filled_filler (path : List Char) :
    ∃ units, Path.filled? filler path = some units
      ∧ units.length + (templateText (Path.pieces path)).count '\x60'
        = (codeUnits (templateText (Path.pieces path))).length
      ∧ (templateText (Path.pieces path)).count '\\'
        = (templateText (Path.pieces path)).count '\x60' + path.count '\\' := by
  induction path using Path.induction with
  | nil => exact ⟨[], rfl, rfl, rfl⟩
  | param name cs hname ih =>
    obtain ⟨units, hunits, hlength, hcount⟩ := ih
    obtain ⟨value, hvalue, hfills⟩ := fills_filler name
    have hnot : ∀ c, isWord c = false → c ∉ name := by
      intro c hc hmem
      rw [Path.isWord_of_paramAt? hname c hmem] at hc
      cases hc
    have hquote := List.count_eq_zero_of_not_mem
      (Alphabet.not_mem_substitution (.inl rfl) (hnot '\x60' (by decide)))
    have hslash := List.count_eq_zero_of_not_mem
      (Alphabet.not_mem_substitution (.inr rfl) (hnot '\\' (by decide)))
    have hpath : (':' :: (name ++ cs)).count '\\' = cs.count '\\' := by
      rw [List.count_cons_of_ne (by decide), List.count_append,
        List.count_eq_zero_of_not_mem (hnot '\\' (by decide)), Nat.zero_add]
    refine ⟨value ++ units, ?_, ?_⟩
    · rw [Path.filled?, Path.pieces_param hname, filledPieces?_param,
        hvalue, ← Path.filled?, hunits]
      rfl
    · rw [Path.pieces_param hname, templateText_param, ← List.cons_append, hpath,
        List.length_append, List.count_append, List.count_append, codeUnits_append,
        List.length_append, hquote, hslash]
      omega
  | char c cs hnone ih =>
    obtain ⟨units, hunits, hlength, hcount⟩ := ih
    have hchar : (unitsOf c.toNat).length + (templateChar c).count '\x60'
        = (codeUnits (templateChar c)).length
        ∧ (templateChar c).count '\\'
          = (templateChar c).count '\x60' + [c].count '\\' := by
      unfold templateChar
      split
      · rename_i hquote
        subst hquote
        decide
      · rename_i hquote
        rw [List.count_cons_of_ne hquote, List.count_nil, codeUnits_cons, codeUnits_nil,
          List.append_nil]
        exact ⟨rfl, (Nat.zero_add _).symm⟩
    have hpath : (c :: cs).count '\\' = [c].count '\\' + cs.count '\\' := by
      rw [← List.singleton_append, List.count_append]
    refine ⟨unitsOf c.toNat ++ units, ?_, ?_⟩
    · rw [Path.filled?, Path.pieces_char hnone,
        filledPieces?_consLiteral, ← Path.filled?, hunits]
      rfl
    · rw [Path.pieces_char hnone, templateText_consLiteral, hpath, List.length_append,
        List.count_append, List.count_append, codeUnits_append, List.length_append]
      omega

/-- A path with a backslash does not stand for itself in a template. -/
theorem not_mem_backslash {a : Alphabet}
    (hread : a.template? filler (templateText (Path.pieces path) ++ '\x60' :: rest)
      = some (units, rest))
    (hfilled : Path.filled? filler path = some units) :
    '\\' ∉ path := by
  obtain ⟨units', hunits, hlength, hcount⟩ := exists_filled_filler path
  obtain rfl : units' = units := Option.some.inj (hunits.symm.trans hfilled)
  obtain ⟨body, hbody, hroom⟩ := Alphabet.of_template? fills_filler hread
  obtain rfl := List.append_cancel_right hbody
  rw [← List.count_eq_zero]
  unfold Alphabet.HasRoom at hroom
  omega

/-- Nor does one with a return, the beginning of a substitution or a
parameter that is no word. The induction goes along the path, up to the
place where the template is read as something else. -/
theorem survives_of_template? {a : Alphabet} (hslash : '\\' ∉ path)
    (hread : a.template? filler (templateText (Path.pieces path) ++ '\x60' :: rest)
      = some (units, rest))
    (hfilled : Path.filled? filler path = some units) :
    Path.Survives a path := by
  induction path using Path.induction generalizing units with
  | nil => exact Path.survives_nil
  | param name cs hname ih =>
    have hhead :
        (substitution name ++ (templateText (Path.pieces cs) ++ '\x60' :: rest)).head?
          = some '\x7b' := rfl
    have hclosing : ')' ∉ name := by
      intro hmem
      exact absurd (Path.isWord_of_paramAt? hname _ hmem) (by decide)
    rw [Path.pieces_param hname, templateText_param, List.cons_append, List.append_assoc,
      Alphabet.template?_dollar hhead] at hread
    rw [Path.filled?, Path.pieces_param hname,
      filledPieces?_param, ← Path.filled?] at hfilled
    cases hword : a.isWord (String.ofList name) with
    | false =>
      rw [Alphabet.substitution?_eq_none hword hclosing] at hread
      cases hread
    | true =>
      rw [Alphabet.substitution?_of_isWord hword, Option.bind_some] at hread
      obtain ⟨value, hvalue, hread⟩ := Option.bind_eq_some_iff.1 hread
      rw [hvalue, Option.bind_some] at hfilled
      obtain ⟨⟨more, after⟩, hmore, hpair⟩ := Option.map_eq_some_iff.1 hread
      obtain ⟨rfl, rfl⟩ := Prod.mk.inj hpair
      obtain ⟨more', hmore', heq⟩ := Option.map_eq_some_iff.1 hfilled
      obtain rfl := List.append_cancel_left heq
      have hcs : '\\' ∉ cs := fun hmem => hslash (by simp [hmem])
      exact (Path.survives_param hname).2 ⟨hword, ih hcs hmore hmore'⟩
  | char c cs hnone ih =>
    rw [Path.pieces_char hnone, templateText_consLiteral, List.append_assoc] at hread
    rw [Path.filled?, Path.pieces_char hnone,
      filledPieces?_consLiteral, ← Path.filled?] at hfilled
    obtain ⟨more', hmore', rfl⟩ := Option.map_eq_some_iff.1 hfilled
    rw [List.mem_cons, not_or] at hslash
    have hreturn : c ≠ '\r' := by
      rintro rfl
      rw [templateChar, if_neg (by decide), List.singleton_append,
        Alphabet.template?_return] at hread
      obtain ⟨⟨more, after⟩, -, hpair⟩ := Option.map_eq_some_iff.1 hread
      have hfirst := (List.cons.inj (Prod.mk.inj hpair).1).1
      revert hfirst
      decide
    have hdollar : ¬ (c = '$' ∧ cs.head? = some '\x7b') := by
      rintro ⟨rfl, hhead⟩
      rw [← head?_templateText cs rest] at hhead
      rw [templateChar, if_neg (by decide), List.singleton_append,
        Alphabet.template?_dollar hhead] at hread
      obtain ⟨⟨name, after⟩, -, hread⟩ := Option.bind_eq_some_iff.1 hread
      obtain ⟨value, hvalue, hread⟩ := Option.bind_eq_some_iff.1 hread
      obtain ⟨⟨more, after'⟩, -, hpair⟩ := Option.map_eq_some_iff.1 hread
      obtain ⟨tail, htail⟩ := exists_filler name
      obtain rfl := Option.some.inj (hvalue.symm.trans htail)
      have hfirst := (List.cons.inj (Prod.mk.inj hpair).1).1
      revert hfirst
      decide
    have hdollar' :
        ¬ (c = '$' ∧ (templateText (Path.pieces cs) ++ '\x60' :: rest).head?
          = some '\x7b') := by
      rwa [head?_templateText]
    rw [template?_templateChar (Ne.symm hslash.1) hreturn hdollar'] at hread
    obtain ⟨⟨more, after⟩, hmore, hpair⟩ := Option.map_eq_some_iff.1 hread
    obtain ⟨hunits, rfl⟩ := Prod.mk.inj hpair
    obtain rfl := List.append_cancel_left hunits
    exact (Path.survives_char hnone).2
      ⟨Ne.symm hslash.1, hreturn, hdollar, ih hslash.2 hmore hmore'⟩

/-! ## The path of a request -/

theorem Path.filled?_eq_codeUnits (values : List Char → List Nat)
    (h : Path.params path = []) :
    Path.filled? values path = some (codeUnits path) := by
  induction path using Path.induction with
  | nil => rfl
  | param name cs hname ih =>
    rw [Path.params_param hname] at h
    cases h
  | char c cs hnone ih =>
    rw [Path.params_char hnone] at h
    rw [Path.filled?, Path.pieces_char hnone, filledPieces?_consLiteral, ← Path.filled?,
      ih h, codeUnits_cons]
    rfl

theorem evaluate?_quoted (a : Alphabet) (values : List Char → List Nat) (s : String) :
    a.evaluate? values (quoted s).toList = if s.toList.any isLineBreak then none
      else some (codeUnits s.toList) := by
  have htext : (quoted s).toList = '"' :: (s.toList.flatMap escapeChar ++ ['"']) := by
    simp [quoted, escape]
  rw [htext, Alphabet.evaluate?, if_pos rfl, scanBody_escape]
  split <;> rfl

theorem evaluate?_template_eq_some_iff {a : Alphabet} {values : List Char → List Nat}
    {text : List Char} :
    a.evaluate? values ('\x60' :: text) = some units
      ↔ a.template? values text = some (units, []) := by
  rw [Alphabet.evaluate?, if_neg (by decide), if_pos rfl]
  constructor
  · intro h
    obtain ⟨⟨units', rest⟩, htemplate, hrest⟩ := Option.bind_eq_some_iff.1 h
    dsimp only at hrest
    split at hrest
    · rename_i hnil
      subst hnil
      rw [htemplate, Option.some.inj hrest]
    · cases hrest
  · intro h
    rw [h]
    rfl

/-- Whether a path is sent as it is meant. Without parameters it must not
have a line break. -/
def Path.IsFaithful (a : Alphabet) (path : List Char) : Prop :=
  if Path.params path = [] then ∀ c ∈ path, isLineBreak c = false
    else Path.Survives a path

/-- **Which paths are sent as they are meant.** Whatever the values of the
parameters, the expression for the path of a request evaluates to the path
with each parameter replaced by its encoded value and every other character
as it is, exactly if the path has no line break and no parameters; or if it
has parameters, all of which are words, but no backslash, no return and no
dollar sign in front of a brace. -/
theorem request_path_faithful_iff (a : Alphabet) (path : String) :
    (∀ values, a.evaluate? values (pathTemplate path).render.toList
      = Path.filled? values path.toList)
      ↔ Path.IsFaithful a path.toList := by
  unfold Path.IsFaithful pathTemplate
  split
  · rename_i hparams
    have hrender : (Expr.text path).render = quoted path := rfl
    have hbreaks : (∀ c ∈ path.toList, isLineBreak c = false)
        ↔ path.toList.any isLineBreak = false := by simp
    rw [hbreaks, hrender]
    constructor
    · intro hall
      have hsame := hall filler
      rw [evaluate?_quoted, Path.filled?_eq_codeUnits filler hparams] at hsame
      split at hsame
      · cases hsame
      · rename_i hline
        exact Bool.eq_false_iff.2 hline
    · intro hline values
      rw [evaluate?_quoted, Path.filled?_eq_codeUnits values hparams, hline]
      rfl
  · have htext :
        (Expr.template ((Path.pieces path.toList).map PathPiece.template)).render.toList
        = '\x60' :: (templateText (Path.pieces path.toList) ++ ['\x60']) := by
      rw [Expr.render, String.toList_append, String.toList_append, templateText]
      rfl
    rw [htext]
    constructor
    · intro hall
      obtain ⟨units, hunits, -⟩ := exists_filled_filler path.toList
      have hread := hall filler
      rw [hunits, evaluate?_template_eq_some_iff] at hread
      exact survives_of_template? (not_mem_backslash hread hunits) hread hunits
    · intro hsurvives values
      ext units
      rw [evaluate?_template_eq_some_iff, template?_templateText hsurvives]
      simp

/-- A backslash and the letter behind it are sent as a line feed, and a
dollar sign in front of a brace starts a substitution that is none of the
path's. -/
theorem unescaped_signs_change_path :
    Alphabet.ascii.evaluate? (fun _ => [55])
      (pathTemplate "/files\\new/:id").render.toList
        = some (codeUnits "/files\new/7".toList)
      ∧ Path.filled? (fun _ => [55]) "/files\\new/:id".toList
        = some (codeUnits "/files\\new/7".toList)
      ∧ Alphabet.ascii.evaluate? (fun _ => [55])
        (pathTemplate "/price/$\x7busd\x7d/:id").render.toList = none
      ∧ Path.filled? (fun _ => [55]) "/price/$\x7busd\x7d/:id".toList
        = some (codeUnits "/price/$\x7busd\x7d/7".toList) := by
  decide +kernel

end TypedContent
