import TypedContent.Proofs.Source.Keys
import TypedContent.Proofs.Source.SpacedHeaders
import TypedContent.Route.Path

/-!
# Pieces of a path

A parameter ends where no name goes on (`Path.paramAt?_eq_some_iff`). So a
path can be cut there without cutting a parameter: the parameters of what
stands on either side are those of the path (`Path.params_append`), and
blanks around a path make no difference (`Path.params_trim`).

The pieces of a path are known by what they are like, not by how they are
found (`Path.IsSplitting`): they make up the path, no literal could be
longer or hides a parameter, and no parameter could be longer. A path has
one such splitting (`Path.IsSplitting.eq_pieces`).
-/

namespace TypedContent

open List Text

variable {ys cs rest : List Char} {c : Char}

/-! ## Parameters of a path -/

def PathPiece.param? : PathPiece → Option (List Char)
  | literal _ => none
  | param name => some name

namespace Path

variable {name text : List Char}

theorem params_eq (path : List Char) :
    params path = (piecesFrom 0 path).filterMap PathPiece.param? := by
  unfold params pieces
  congr 1
  funext piece
  cases piece <;> rfl

theorem params_consLiteral (c : Char) (pieces : List PathPiece) :
    (consLiteral c pieces).filterMap PathPiece.param?
      = pieces.filterMap PathPiece.param? := by
  unfold consLiteral
  split <;> rfl

theorem takeWhile_isWord_append (hys : ys.head?.any isWord = false) (xs : List Char) :
    (xs ++ ys).takeWhile isWord = xs.takeWhile isWord := by
  induction xs with
  | nil =>
    cases ys with
    | nil => rfl
    | cons y ys =>
      have hy : isWord y = false := hys
      simp [hy]
  | cons x xs ih => simp [takeWhile_cons, ih]

/-- A letter of ASCII or a low line, and word characters behind it. -/
def IsParamName (name : List Char) : Prop :=
  ∃ c cs, name = c :: cs ∧ (c.isAlpha = true ∨ c = '_') ∧ ∀ d ∈ cs, isWord d = true

/-- A parameter stands where a colon and a name do, and the name goes on as
far as it can. -/
theorem paramAt?_eq_some_iff :
    paramAt? cs = some name
      ↔ ∃ rest, cs = ':' :: (name ++ rest) ∧ IsParamName name
        ∧ rest.head?.any isWord = false := by
  constructor
  · intro h
    unfold paramAt? at h
    split at h
    · rename_i c cs
      split at h
      · rename_i hc
        obtain rfl := Option.some.inj h
        refine ⟨cs.dropWhile isWord, ?_, ⟨c, cs.takeWhile isWord, rfl, ?_, ?_⟩, ?_⟩
        · rw [cons_append, takeWhile_append_dropWhile]
        · simpa using hc
        · exact fun d hd => mem_takeWhile_imp hd
        · have hhead := head?_dropWhile_not isWord cs
          cases hfirst : (cs.dropWhile isWord).head? with
          | none => rfl
          | some d =>
            rw [hfirst] at hhead
            exact hhead
      · cases h
    · cases h
  · rintro ⟨rest, rfl, ⟨c, cs, rfl, hc, hcs⟩, hrest⟩
    have hword : (cs ++ rest).takeWhile isWord = cs := by
      rw [takeWhile_isWord_append hrest, takeWhile_eq_self_iff.2 hcs]
    rw [cons_append, paramAt?, hword, if_pos (by simpa using hc)]

/-- A name ends in front of a character that no name has. -/
theorem paramAt?_append (hys : ys.head?.any isWord = false) (c : Char) (cs : List Char) :
    paramAt? (c :: (cs ++ ys)) = paramAt? (c :: cs) := by
  by_cases hc : c = ':'
  · subst hc
    cases cs with
    | cons d cs => simp only [cons_append, paramAt?, takeWhile_isWord_append hys]
    | nil =>
      cases ys with
      | nil => rfl
      | cons y ys =>
        have hy : isWord y = false := hys
        simp only [isWord, Char.isAlphanum, Bool.or_eq_false_iff] at hy
        simp [paramAt?, hy]
  · simp [paramAt?, hc]

theorem length_le_of_paramAt? (h : paramAt? (c :: cs) = some name) :
    name.length ≤ cs.length := by
  obtain ⟨rest, hrest⟩ := eq_of_paramAt? h
  have hcs : cs = name ++ rest := (List.cons.inj hrest).2
  rw [hcs, length_append]
  exact Nat.le_add_right _ _

theorem params_piecesFrom_append (hys : ys.head?.any isWord = false) {skip : Nat}
    {xs : List Char} (hskip : skip ≤ xs.length) :
    (piecesFrom skip (xs ++ ys)).filterMap PathPiece.param?
      = (piecesFrom skip xs).filterMap PathPiece.param? ++ params ys := by
  rw [params_eq]
  fun_induction piecesFrom skip xs with
  | case1 skip =>
    obtain rfl : skip = 0 := by simpa using hskip
    rfl
  | case2 skip c cs ih => exact ih (Nat.le_of_succ_le_succ hskip)
  | case3 c cs name hname ih =>
    rw [cons_append, piecesFrom, paramAt?_append hys, hname]
    exact congrArg (name :: ·) (ih (length_le_of_paramAt? hname))
  | case4 c cs hnone ih =>
    rw [cons_append, piecesFrom, paramAt?_append hys, hnone, params_consLiteral,
      params_consLiteral]
    exact ih (Nat.zero_le _)

/-- No parameter reaches across a place where no name goes on. -/
theorem params_append (hys : ys.head?.any isWord = false) (xs : List Char) :
    params (xs ++ ys) = params xs ++ params ys := by
  rw [params_eq (xs ++ ys), params_piecesFrom_append hys (Nat.zero_le _), ← params_eq]

theorem params_append_of_not_mem {xs : List Char} (h : ':' ∉ xs) (ys : List Char) :
    params (xs ++ ys) = params ys := by
  induction xs with
  | nil => rfl
  | cons x xs ih =>
    rw [mem_cons, not_or] at h
    have hnone : paramAt? (x :: (xs ++ ys)) = none := by
      simp [paramAt?, Ne.symm h.1]
    rw [cons_append, params_eq, piecesFrom, hnone,
      params_consLiteral, ← params_eq, ih h.2]

/-- What stands in front of a path adds its own parameters, the last of
which may go on in the path. -/
theorem params_front_append (front path : List Char) :
    params (front ++ path) = params (front ++ path.takeWhile isWord) ++ params path := by
  have hrest : (path.dropWhile isWord).head?.any isWord = false := by
    have hhead := head?_dropWhile_not isWord path
    cases hfirst : (path.dropWhile isWord).head? with
    | none => rfl
    | some c =>
      rw [hfirst] at hhead
      exact hhead
  have hword : ':' ∉ path.takeWhile isWord :=
    fun hmem => absurd (mem_takeWhile_imp hmem) (by decide)
  have hpath := takeWhile_append_dropWhile (p := isWord) (l := path)
  calc params (front ++ path)
      = params (front ++ path.takeWhile isWord ++ path.dropWhile isWord) := by
        rw [append_assoc, hpath]
    _ = params (front ++ path.takeWhile isWord) ++ params (path.dropWhile isWord) :=
      params_append hrest _
    _ = params (front ++ path.takeWhile isWord) ++ params path := by
        rw [← params_append_of_not_mem hword (path.dropWhile isWord), hpath]

theorem params_of_isBlank {blanks : List Char} (h : ∀ c ∈ blanks, isBlank c = true) :
    params blanks = [] := by
  have hcolon : ':' ∉ blanks := fun hmem => absurd (h _ hmem) (by decide)
  rw [← append_nil blanks, params_append_of_not_mem hcolon]
  rfl

theorem params_trim (path : List Char) : params (trim path) = params path := by
  have hstart : params (trimStart path) = params path := by
    have hcolon : ':' ∉ path.takeWhile isBlank :=
      fun hmem => absurd (mem_takeWhile_imp hmem) (by decide)
    rw [trimStart, ← params_append_of_not_mem hcolon, takeWhile_append_dropWhile]
  obtain ⟨blanks, hblanks, hblank⟩ := Source.exists_trimEnd_append (trimStart path)
  have hhead : blanks.head?.any isWord = false := by
    cases blanks with
    | nil => rfl
    | cons c blanks => exact Source.isWord_of_isBlank (hblank c mem_cons_self)
  calc params (trim path) = params (trimEnd (trimStart path)) ++ params blanks := by
        rw [params_of_isBlank hblank, append_nil, trim]
    _ = params path := by rw [← params_append hhead, ← hblanks, hstart]

/-! ## Characters and parameters -/

theorem piecesFrom_eq (skip : Nat) (cs : List Char) :
    piecesFrom skip cs = pieces (cs.drop skip) := by
  induction cs generalizing skip with
  | nil => cases skip <;> rfl
  | cons c cs ih =>
    cases skip with
    | zero => rfl
    | succ skip => exact ih skip

theorem pieces_param (h : paramAt? (':' :: (name ++ rest)) = some name) :
    pieces (':' :: (name ++ rest)) = .param name :: pieces rest := by
  rw [pieces, piecesFrom, h]
  dsimp only
  rw [piecesFrom_eq, drop_left]

theorem pieces_char (h : paramAt? (c :: cs) = none) :
    pieces (c :: cs) = consLiteral c (pieces cs) := by
  rw [pieces, piecesFrom, h]
  rfl

theorem params_param (h : paramAt? (':' :: (name ++ rest)) = some name) :
    params (':' :: (name ++ rest)) = name :: params rest := by
  rw [params, pieces_param h]
  rfl

theorem params_char (h : paramAt? (c :: cs) = none) : params (c :: cs) = params cs := by
  rw [params_eq, params_eq, ← pieces, pieces_char h, params_consLiteral, pieces]

/-- A path is a sequence of parameters and of characters at which no
parameter starts. -/
@[elab_as_elim]
theorem induction {motive : List Char → Prop} (path : List Char) (nil : motive [])
    (param : ∀ name rest, paramAt? (':' :: (name ++ rest)) = some name → motive rest →
      motive (':' :: (name ++ rest)))
    (char : ∀ c cs, paramAt? (c :: cs) = none → motive cs → motive (c :: cs)) :
    motive path := by
  have hbounded : ∀ n (path : List Char), path.length ≤ n → motive path := by
    intro n
    induction n with
    | zero =>
      intro path hpath
      rw [length_eq_zero_iff.1 (Nat.le_zero.1 hpath)]
      exact nil
    | succ n ih =>
      intro path hpath
      cases path with
      | nil => exact nil
      | cons c cs =>
        rw [length_cons, Nat.succ_le_succ_iff] at hpath
        cases hname : paramAt? (c :: cs) with
        | none => exact char c cs hname (ih cs hpath)
        | some name =>
          obtain ⟨rest, hrest⟩ := eq_of_paramAt? hname
          rw [cons_append] at hrest
          obtain ⟨rfl, rfl⟩ := List.cons.inj hrest
          rw [length_append] at hpath
          exact param name rest hname (ih rest (by omega))
  exact hbounded path.length path (Nat.le_refl _)

/-- A parameter is a word in the sense of paths, so it has no sign that a
template, a literal or a substitution has. -/
theorem isWord_of_paramAt? (h : paramAt? cs = some name) :
    ∀ c ∈ name, isWord c = true := by
  obtain ⟨-, -, ⟨c, rest, rfl, hc, hrest⟩, -⟩ := paramAt?_eq_some_iff.1 h
  refine forall_mem_cons.2 ⟨?_, hrest⟩
  rcases hc with hc | rfl
  · simp [isWord, Char.isAlphanum, hc]
  · decide

/-! ## Splittings -/

/-- What a list of pieces is like that splits a path. -/
structure IsSplitting (path : List Char) (ps : List PathPiece) : Prop where
  /-- The pieces make up the path, with a colon in front of each
  parameter. -/
  text : ps.flatMap PathPiece.text = path
  literal_ne_nil : ∀ text, .literal text ∈ ps → text ≠ []
  /-- Of two neighbours one is a parameter. -/
  apart : ps.IsChain fun a b => a.param?.isSome ∨ b.param?.isSome
  /-- A parameter is a name, and no word character follows it in the
  path. -/
  maximal : ∀ before name after, ps = before ++ .param name :: after →
    IsParamName name ∧ (after.flatMap PathPiece.text).head?.any isWord = false
  /-- No parameter is overlooked in a literal. -/
  literal : ∀ text, .literal text ∈ ps → pieces text = [.literal text]

/-- A character in front of pieces continues the first literal, or stands
alone in front of a parameter. -/
theorem consLiteral_cases (c : Char) (ps : List PathPiece) :
    (∃ text rest, ps = .literal text :: rest
      ∧ consLiteral c ps = .literal (c :: text) :: rest)
      ∨ ((∀ p ∈ ps.head?, p.param?.isSome) ∧ consLiteral c ps = .literal [c] :: ps) := by
  cases ps with
  | nil => exact .inr ⟨by simp, rfl⟩
  | cons p rest =>
    cases p with
    | literal text => exact .inl ⟨text, rest, rfl, rfl⟩
    | param name =>
      refine .inr ⟨fun p hp => ?_, rfl⟩
      obtain rfl := Option.some.inj hp
      rfl

/-- What starts with a parameter starts with a colon, which is in no
name. -/
theorem head?_text_of_param {ps : List PathPiece} (h : ∀ p ∈ ps.head?, p.param?.isSome) :
    (ps.flatMap PathPiece.text).head?.any isWord = false := by
  cases ps with
  | nil => rfl
  | cons p ps =>
    cases p with
    | literal text => cases h _ rfl
    | param name =>
      have hcolon : isWord ':' = false := by decide
      exact hcolon

theorem literal_ne_nil_of_mem_pieces {path : List Char}
    (h : .literal text ∈ pieces path) :
    text ≠ [] := by
  induction path using Path.induction with
  | nil => cases h
  | param name rest hname ih =>
    rw [pieces_param hname, mem_cons] at h
    exact ih (h.resolve_left (by simp))
  | char c cs hnone ih =>
    rw [pieces_char hnone] at h
    rcases consLiteral_cases c (pieces cs) with ⟨first, rest, hps, hcons⟩ | ⟨-, hcons⟩
    · rw [hcons, mem_cons] at h
      rcases h with heq | hmem
      · rw [PathPiece.literal.inj heq]
        exact cons_ne_nil c first
      · exact ih (hps ▸ mem_cons_of_mem _ hmem)
    · rw [hcons, mem_cons] at h
      rcases h with heq | hmem
      · rw [PathPiece.literal.inj heq]
        exact cons_ne_nil c []
      · exact ih hmem

theorem isChain_pieces (path : List Char) :
    (pieces path).IsChain fun a b => a.param?.isSome ∨ b.param?.isSome := by
  induction path using Path.induction with
  | nil => exact .nil
  | param name rest hname ih =>
    rw [pieces_param hname, isChain_cons]
    exact ⟨fun _ _ => .inl rfl, ih⟩
  | char c cs hnone ih =>
    rw [pieces_char hnone]
    rcases consLiteral_cases c (pieces cs) with ⟨first, rest, hps, hcons⟩ | ⟨hhead, hcons⟩
    · rw [hps, isChain_cons] at ih
      rw [hcons, isChain_cons]
      exact ih
    · rw [hcons, isChain_cons]
      exact ⟨fun p hp => .inr (hhead p hp), ih⟩

theorem param_maximal {path : List Char} {before after : List PathPiece}
    (h : pieces path = before ++ .param name :: after) :
    IsParamName name ∧ (after.flatMap PathPiece.text).head?.any isWord = false := by
  induction path using Path.induction generalizing before with
  | nil => cases before <;> cases h
  | param other rest hname ih =>
    rw [pieces_param hname] at h
    cases before with
    | nil =>
      obtain ⟨heq, rfl⟩ := List.cons.inj h
      obtain rfl := PathPiece.param.inj heq
      obtain ⟨more, hmore, hother, hhead⟩ := paramAt?_eq_some_iff.1 hname
      rw [flatMap_pieces]
      obtain rfl : rest = more := by simpa using hmore
      exact ⟨hother, hhead⟩
    | cons p before => exact ih (List.cons.inj h).2
  | char c cs hnone ih =>
    rw [pieces_char hnone] at h
    cases before with
    | nil =>
      -- the first piece is a literal
      rcases consLiteral_cases c (pieces cs) with ⟨first, rest, -, hcons⟩ | ⟨-, hcons⟩
        <;> rw [hcons] at h <;> cases h
    | cons p before =>
      rcases consLiteral_cases c (pieces cs) with ⟨first, rest, hps, hcons⟩ | ⟨-, hcons⟩
      · rw [hcons] at h
        obtain ⟨-, rfl⟩ := List.cons.inj h
        exact @ih (.literal first :: before) hps
      · rw [hcons] at h
        exact ih (List.cons.inj h).2

theorem pieces_of_mem_pieces {path : List Char} (h : .literal text ∈ pieces path) :
    pieces text = [.literal text] := by
  induction path using Path.induction generalizing text with
  | nil => cases h
  | param name rest hname ih =>
    rw [pieces_param hname, mem_cons] at h
    exact ih (h.resolve_left (by simp))
  | char c cs hnone ih =>
    have hchain := isChain_pieces cs
    have hcs := flatMap_pieces cs
    rw [pieces_char hnone] at h
    rcases consLiteral_cases c (pieces cs) with ⟨first, rest, hps, hcons⟩ | ⟨-, hcons⟩
    · rw [hcons, mem_cons] at h
      rcases h with heq | hmem
      · obtain rfl := PathPiece.literal.inj heq
        -- the literal is followed by a parameter, so its first character
        -- starts no parameter without it either
        rw [hps, isChain_cons] at hchain
        have hhead := head?_text_of_param fun p hp =>
          (hchain.1 p hp).resolve_left (by simp [PathPiece.param?])
        rw [hps, flatMap_cons] at hcs
        have halone : paramAt? (c :: first) = none := by
          rw [← paramAt?_append hhead]
          exact hcs ▸ hnone
        rw [pieces_char halone, ih (hps ▸ mem_cons_self)]
        rfl
      · exact ih (hps ▸ mem_cons_of_mem _ hmem)
    · rw [hcons, mem_cons] at h
      rcases h with heq | hmem
      · obtain rfl := PathPiece.literal.inj heq
        have halone : paramAt? [c] = none := by simp [paramAt?]
        rw [pieces_char halone]
        rfl
      · exact ih hmem

theorem isSplitting_pieces (path : List Char) : IsSplitting path (pieces path) where
  text := flatMap_pieces path
  literal_ne_nil _ := literal_ne_nil_of_mem_pieces
  apart := isChain_pieces path
  maximal _ _ _ := param_maximal
  literal _ := pieces_of_mem_pieces

/-- A literal in front of a parameter, or of nothing, is the first piece. -/
theorem pieces_literal_append (h : pieces text = [.literal text])
    (hhead : rest.head?.any isWord = false)
    (hrest : ∀ p ∈ (pieces rest).head?, p.param?.isSome) :
    pieces (text ++ rest) = .literal text :: pieces rest := by
  induction text with
  | nil => cases h
  | cons c text ih =>
    have hnone : paramAt? (c :: text) = none := by
      cases hname : paramAt? (c :: text) with
      | none => rfl
      | some name =>
        obtain ⟨more, hmore, -⟩ := paramAt?_eq_some_iff.1 hname
        rw [hmore, pieces_param (hmore ▸ hname)] at h
        cases h
    rw [pieces_char hnone] at h
    rw [cons_append, pieces_char (by rw [paramAt?_append hhead, hnone])]
    rcases consLiteral_cases c (pieces text) with ⟨first, more, hps, hcons⟩ | ⟨-, hcons⟩
    · rw [hcons] at h
      obtain ⟨heq, rfl⟩ := List.cons.inj h
      obtain rfl := (List.cons.inj (PathPiece.literal.inj heq)).2
      rw [ih hps]
      rfl
    · rw [hcons] at h
      obtain ⟨heq, -⟩ := List.cons.inj h
      obtain rfl := (List.cons.inj (PathPiece.literal.inj heq)).2
      rcases consLiteral_cases c (pieces rest) with ⟨first, more, hps, -⟩ | ⟨-, hcons'⟩
      · rw [hps] at hrest
        cases hrest _ rfl
      · exact hcons'

namespace IsSplitting

variable {path : List Char} {p : PathPiece} {ps : List PathPiece}

/-- What follows the first piece is split by the other pieces. -/
theorem tail (h : IsSplitting path (p :: ps)) :
    IsSplitting (ps.flatMap PathPiece.text) ps where
  text := rfl
  literal_ne_nil text hmem := h.literal_ne_nil text (mem_cons_of_mem _ hmem)
  apart := (isChain_cons.1 h.apart).2
  maximal before name after hps :=
    h.maximal (p :: before) name after (congrArg (List.cons p) hps)
  literal text hmem := h.literal text (mem_cons_of_mem _ hmem)

/-- There is one way to split a path. -/
theorem eq_pieces (h : IsSplitting path ps) : ps = pieces path := by
  induction ps generalizing path with
  | nil =>
    rw [← h.text]
    rfl
  | cons p ps ih =>
    have hrest := ih h.tail
    rw [← h.text, flatMap_cons]
    cases p with
    | param name =>
      have hname : paramAt? (':' :: (name ++ ps.flatMap PathPiece.text)) = some name :=
        paramAt?_eq_some_iff.2 ⟨_, rfl, h.maximal [] name ps rfl⟩
      rw [PathPiece.text, cons_append, pieces_param hname, ← hrest]
    | literal text =>
      have hhead : ∀ p ∈ ps.head?, p.param?.isSome := fun p hp =>
        ((isChain_cons.1 h.apart).1 p hp).resolve_left (by simp [PathPiece.param?])
      rw [PathPiece.text, pieces_literal_append (h.literal text mem_cons_self)
        (head?_text_of_param hhead) (hrest ▸ hhead), ← hrest]

end IsSplitting

theorem map_params (path : List Char) :
    (params path).map .param = (pieces path).filter (·.param?.isSome) := by
  rw [params_eq, ← pieces]
  induction pieces path with
  | nil => rfl
  | cons p ps ih =>
    cases p with
    | literal text => exact ih
    | param name => exact congrArg (List.cons (.param name)) ih

/-- **A path is split without loss and as far as it goes.** Its pieces make
up the path, literals are not empty and never neighbours, parameters are
names that no word character follows, a literal alone is one piece, and
these are the only such pieces. The parameters of a path are its pieces that
are parameters, in their order, and blanks around the path make no
difference to them. -/
theorem pieces_split_path (path : List Char) :
    IsSplitting path (pieces path) ∧ (∀ ps, IsSplitting path ps → ps = pieces path)
      ∧ (params path).map .param = (pieces path).filter (·.param?.isSome)
        ∧ params (trim path) = params path :=
  ⟨isSplitting_pieces path, fun _ h => h.eq_pieces, map_params path, params_trim path⟩

end Path

end TypedContent
