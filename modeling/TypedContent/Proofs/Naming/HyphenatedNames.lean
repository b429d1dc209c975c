import Mathlib
import TypedContent.Naming.Words
import TypedContent.Proofs.Source.SquashedTexts

/-!
# Names that stay apart

A spelling of names can make two names one: `ai-chat` and `aiChat` have the
same namespace, and so have `a-i-chat` and `ai-chat`. For names written the
usual way it cannot. A hyphenated name is a list of words of two characters
or more (`isHyphenated`), and its namespace can be read from the left: the
second character tells an abbreviation from a word with a capital, a word
with a capital goes on to the next capital, and no abbreviation starts
another one (`eq_of_append_eq`). So the words, and with them the name, are
those of the namespace (`namespaceName_inj`). An action in one piece
(`isSinglePiece`) keeps all but the case of its first letter
(`pascalCase_inj`).
-/

namespace TypedContent

open List

namespace Naming

variable {name word name' rest w : List Char} {c : Char} {ws : List (List Char)}

/-! ## Letters -/

/-- A lower case letter or a digit. -/
def isWordChar (c : Char) : Bool :=
  c.isLower || c.isDigit

theorem toNat_of_isLower (h : c.isLower = true) : 97 ≤ c.toNat ∧ c.toNat ≤ 122 := by
  simpa [Char.isLower, UInt32.le_iff_toNat_le] using h

theorem toNat_toUpper_of_isLower (h : c.isLower = true) :
    c.toUpper.toNat = c.toNat - 32 := by
  have hbounds := toNat_of_isLower h
  have hcases : ∀ n : Fin 128, 97 ≤ n.val ∧ n.val ≤ 122 →
      (Char.ofNat n.val).toUpper.toNat = n.val - 32 := by decide
  have hlt : c.toNat < 128 := by omega
  simpa using hcases ⟨c.toNat, hlt⟩ hbounds

theorem toUpper_inj {d : Char} (hc : c.isLower = true) (hd : d.isLower = true)
    (h : c.toUpper = d.toUpper) :
    c = d := by
  have hcode := congrArg Char.toNat h
  have hcBounds := toNat_of_isLower hc
  have hdBounds := toNat_of_isLower hd
  rw [toNat_toUpper_of_isLower hc, toNat_toUpper_of_isLower hd] at hcode
  exact Char.ext (UInt32.toNat_inj.1 (show c.toNat = d.toNat by omega))

theorem isUpper_toUpper (h : c.isLower = true) : c.toUpper.isUpper = true := by
  have hcode := toNat_toUpper_of_isLower h
  have hbounds := toNat_of_isLower h
  have hupper : 65 ≤ c.toUpper.toNat ∧ c.toUpper.toNat ≤ 90 := by omega
  simpa [Char.isUpper, UInt32.le_iff_toNat_le] using hupper

theorem of_isWordChar (h : isWordChar c = true) :
    c.isUpper = false ∧ c.toLower = c ∧ isSeparator c = false := by
  have hbounds : (97 ≤ c.toNat ∧ c.toNat ≤ 122) ∨ (48 ≤ c.toNat ∧ c.toNat ≤ 57) := by
    simpa [isWordChar, Char.isLower, Char.isDigit, UInt32.le_iff_toNat_le] using h
  have hcases : ∀ n : Fin 128, (97 ≤ n.val ∧ n.val ≤ 122) ∨ (48 ≤ n.val ∧ n.val ≤ 57) →
      (Char.ofNat n.val).isUpper = false ∧ (Char.ofNat n.val).toLower = Char.ofNat n.val
        ∧ isSeparator (Char.ofNat n.val) = false := by
    decide
  have hlt : c.toNat < 128 := by omega
  simpa using hcases ⟨c.toNat, hlt⟩ hbounds

theorem capitalize_of_isLower (h : c.isLower = true) (cs : List Char) :
    capitalize (c :: cs) = c.toUpper :: cs := by
  have hbounds := toNat_of_isLower h
  rw [capitalize, Text.upper, if_pos (by omega), singleton_append]

/-! ## Words -/

/-- Whether a word has a letter first, two characters or more and no
capitals. -/
def isPlainWord : List Char → Bool
  | c :: d :: cs => c.isLower && (d :: cs).all isWordChar
  | _ => false

theorem exists_of_isPlainWord (h : isPlainWord word = true) :
    ∃ c d cs, word = c :: d :: cs ∧ c.isLower = true
      ∧ ∀ x ∈ d :: cs, isWordChar x = true := by
  match word with
  | c :: d :: cs =>
    rw [isPlainWord, Bool.and_eq_true, all_eq_true] at h
    exact ⟨c, d, cs, rfl, h.1, h.2⟩

theorem isWordChar_of_isPlainWord (h : isPlainWord word = true) :
    ∀ x ∈ word, isWordChar x = true := by
  obtain ⟨c, d, cs, rfl, hc, hcs⟩ := exists_of_isPlainWord h
  exact forall_mem_cons.2 ⟨by rw [isWordChar, hc, Bool.true_or], hcs⟩

/-- Whether a name consists of words with hyphens between them. -/
def isHyphenated (name : List Char) : Bool :=
  (name.splitOn '-').all isPlainWord

theorem isHyphenated_iff :
    isHyphenated name = true ↔ ∃ ws,
      ws ≠ [] ∧ (∀ w ∈ ws, isPlainWord w = true) ∧ name = ['-'].intercalate ws := by
  rw [isHyphenated, all_eq_true]
  constructor
  · intro h
    exact ⟨name.splitOn '-', splitOn_ne_nil _ _, h, (intercalate_splitOn '-').symm⟩
  · rintro ⟨ws, hne, hws, rfl⟩
    rw [splitOn_intercalate '-' ?_ hne]
    · exact hws
    · intro w hw hhyphen
      exact absurd (isWordChar_of_isPlainWord (hws w hw) '-' hhyphen) (by decide)

theorem intercalate_append {α : Type} {sep : List α} {xs ys : List (List α)}
    (hx : xs ≠ []) (hy : ys ≠ []) :
    sep.intercalate (xs ++ ys) = sep.intercalate xs ++ sep ++ sep.intercalate ys := by
  induction xs with
  | nil => exact absurd rfl hx
  | cons x xs ih =>
    cases xs with
    | nil =>
      cases ys with
      | nil => exact absurd rfl hy
      | cons y ys => simp [List.intercalate, List.intersperse]
    | cons x' xs =>
      have htail := ih (cons_ne_nil x' xs)
      simp only [List.intercalate, cons_append, List.intersperse, flatten_cons] at htail ⊢
      rw [htail]
      simp only [append_assoc]

/-- What holds of the separator and of the characters of all parts holds of
all characters between them. -/
theorem forall_mem_intercalate {α : Type} {P : α → Prop} {space : α}
    {ws : List (List α)} (hspace : P space) (h : ∀ w ∈ ws, ∀ x ∈ w, P x) :
    ∀ x ∈ [space].intercalate ws, P x := by
  induction ws with
  | nil => simp
  | cons w ws ih =>
    obtain ⟨hw, hws⟩ := forall_mem_cons.1 h
    cases ws with
    | nil => rwa [intercalate_singleton]
    | cons v ws =>
      rw [intercalate_cons_cons, append_assoc]
      exact forall_mem_append.2 ⟨hw,
        forall_mem_append.2 ⟨forall_mem_singleton.2 hspace, ih hws⟩⟩

theorem isHyphenated_append (h : isHyphenated name = true)
    (h' : isHyphenated name' = true) :
    isHyphenated (name ++ '-' :: name') = true := by
  obtain ⟨ws, hne, hws, rfl⟩ := isHyphenated_iff.1 h
  obtain ⟨vs, hne', hvs, rfl⟩ := isHyphenated_iff.1 h'
  refine isHyphenated_iff.2 ⟨ws ++ vs, by simp [hne], forall_mem_append.2 ⟨hws, hvs⟩, ?_⟩
  rw [intercalate_append hne hne', append_assoc, singleton_append]

/-- Small letters and digits go on to the next word. -/
theorem wordsFrom_run {run : List Char} (h : ∀ x ∈ run, isWordChar x = true)
    (hrest : ∀ b, isWordChar b = true → wordsFrom (some b) rest = [] :: ws)
    {before : Option Char} (hbefore : run = [] → wordsFrom before rest = [] :: ws) :
    wordsFrom before (run ++ rest) = run :: ws := by
  induction run generalizing before with
  | nil => exact hbefore rfl
  | cons c run ih =>
    rw [forall_mem_cons] at h
    obtain ⟨hupper, hlower, hseparator⟩ := of_isWordChar h.1
    have hrun : wordsFrom (some c) (run ++ rest) = run :: ws :=
      ih h.2 fun _ => hrest c h.1
    simp only [cons_append, wordsFrom, hseparator, hupper, hlower, hrun, consWord,
      Bool.false_eq_true, if_false, Bool.false_and]

/-- A word is *settled* if no change of spelling takes it apart: it has no
separators and no capitals. -/
def IsSettled (w : List Char) : Prop :=
  w ≠ [] ∧ ∀ c ∈ w, isSeparator c = false ∧ c.isUpper = false

theorem IsSettled.parts (h : IsSettled w) : w ≠ [] ∧ ∀ c ∈ w, isSeparator c = false :=
  ⟨h.1, fun c hc => (h.2 c hc).1⟩

theorem IsSettled.hyphen_notMem (h : IsSettled w) : '-' ∉ w :=
  fun hmem => absurd (h.2 '-' hmem).1 (by decide)

theorem settled_of_isPlainWord (h : isPlainWord w = true) : IsSettled w := by
  refine ⟨?_, fun c hc => ?_⟩
  · rintro rfl
    cases h
  · obtain ⟨hupper, -, hseparator⟩ := of_isWordChar (isWordChar_of_isPlainWord h c hc)
    exact ⟨hseparator, hupper⟩

/-- Without capitals, only separators end a word. -/
theorem words_of_no_capital {cs : List Char} (h : ∀ c ∈ cs, c.isUpper = false) :
    words cs = Text.pieces isSeparator cs := by
  have hfrom : ∀ before, wordsFrom before cs = cs.splitOnP isSeparator := by
    induction cs with
    | nil => exact fun _ => splitOnP_nil.symm
    | cons c cs ih =>
      obtain ⟨hc, hcs⟩ := forall_mem_cons.1 h
      have hlower : c.toLower = c := dif_neg (of_decide_eq_false hc)
      obtain ⟨first, rest, hsplit⟩ :=
        exists_cons_of_ne_nil (splitOnP_ne_nil isSeparator cs)
      intro before
      rw [wordsFrom, ih hcs, splitOnP_cons_eq_if_modifyHead, hc, hlower, hsplit]
      rfl
  rw [words, hfrom, Text.pieces]

theorem words_intercalate (h : ∀ w ∈ ws, IsSettled w) :
    words (['-'].intercalate ws) = ws := by
  rw [words_of_no_capital (forall_mem_intercalate (by decide) fun w hw c hc =>
    ((h w hw).2 c hc).2)]
  exact Source.stretches_intercalate (by decide) fun w hw => (h w hw).parts

/-! ## Namespaces -/

/-- What comes behind a word of a namespace: nothing, or a capital. -/
def StartsUpper (cs : List Char) : Prop :=
  ∀ c ∈ cs.head?, c.isUpper = true

theorem abbreviation_letters :
    ∀ word ∈ abbreviations, ∃ c d cs, word = c :: d :: cs ∧ c.isLower = true
    ∧ d.isLower = true := by
  intro word hword
  have hcheck : ∀ word ∈ abbreviations,
      (word.take 2).length = 2 ∧ (word.take 2).all Char.isLower = true := by decide
  obtain ⟨hlength, hlower⟩ := hcheck word hword
  match word with
  | c :: d :: cs => exact ⟨c, d, cs, rfl, by simpa using hlower⟩

/-- No abbreviation starts another one. -/
theorem eq_of_abbreviation_begins : ∀ v ∈ abbreviations, ∀ w ∈ abbreviations,
    (v.map Char.toUpper).isPrefixOf (w.map Char.toUpper) = true → v = w := by
  decide +kernel

theorem startsUpper_namespaceWord (h : isPlainWord w = true) (rest : List Char) :
    StartsUpper (namespaceWord w ++ rest) := by
  obtain ⟨c, d, cs, rfl, hc, -⟩ := exists_of_isPlainWord h
  intro x hx
  have hhead : x = c.toUpper := by
    unfold namespaceWord at hx
    split at hx
    · simpa [eq_comm] using hx
    · rw [capitalize_of_isLower hc] at hx
      simpa [eq_comm] using hx
  rw [hhead]
  exact isUpper_toUpper hc

/-- The second character tells a word with a capital from an
abbreviation. -/
theorem isUpper_second (h : isPlainWord w = true) :
    ∃ x y cs, namespaceWord w = x :: y :: cs ∧ y.isUpper = abbreviations.contains w := by
  obtain ⟨c, d, cs, rfl, hc, hcs⟩ := exists_of_isPlainWord h
  unfold namespaceWord
  split
  · rename_i habbreviation
    obtain ⟨c', d', cs', heq, -, hd⟩ :=
      abbreviation_letters _ (contains_iff_mem.1 habbreviation)
    have hsecond : d = d' := (List.cons.inj (List.cons.inj heq).2).1
    rw [← hsecond] at hd
    exact ⟨c.toUpper, d.toUpper, cs.map Char.toUpper, rfl,
      by rw [isUpper_toUpper hd, habbreviation]⟩
  · rename_i hword
    refine ⟨c.toUpper, d, cs, capitalize_of_isLower hc (d :: cs), ?_⟩
    rw [(of_isWordChar (hcs d mem_cons_self)).1, Bool.eq_false_iff.2 hword]

theorem takeWhile_append_of_startsUpper (h : ∀ x ∈ word, isWordChar x = true)
    (hrest : StartsUpper rest) :
    (word ++ rest).takeWhile (fun x => !x.isUpper) = word := by
  rw [takeWhile_append_of_pos fun x hx => by rw [(of_isWordChar (h x hx)).1]; rfl]
  cases rest with
  | nil => simp
  | cons c rest => simp [hrest c rfl]

/-- The first word of a namespace and what follows it are determined. -/
theorem eq_of_append_eq {v rest' : List Char} (hv : isPlainWord v = true)
    (hw : isPlainWord w = true) (hrest : StartsUpper rest)
    (hrest' : StartsUpper rest')
    (h : namespaceWord v ++ rest = namespaceWord w ++ rest') :
    v = w ∧ rest = rest' := by
  have hkind : abbreviations.contains v = abbreviations.contains w := by
    obtain ⟨x, y, cs, hx, hvKind⟩ := isUpper_second hv
    obtain ⟨x', y', cs', hx', hwKind⟩ := isUpper_second hw
    rw [hx, hx'] at h
    obtain ⟨-, h⟩ := List.cons.inj h
    rw [← hvKind, ← hwKind, (List.cons.inj h).1]
  have hsame : v = w := by
    cases habbreviation : abbreviations.contains v with
    | true =>
      rw [habbreviation] at hkind
      have hvMem := contains_iff_mem.1 habbreviation
      have hwMem := contains_iff_mem.1 hkind.symm
      rw [namespaceWord, namespaceWord, if_pos habbreviation, if_pos hkind.symm] at h
      rcases append_eq_append_iff.1 h with ⟨more, hmore, -⟩ | ⟨more, hmore, -⟩
      · exact eq_of_abbreviation_begins v hvMem w hwMem
          ( isPrefixOf_iff_prefix.2 ⟨more, hmore.symm⟩)
      · exact (eq_of_abbreviation_begins w hwMem v hvMem
          ( isPrefixOf_iff_prefix.2 ⟨more, hmore.symm⟩)).symm
    | false =>
      rw [habbreviation] at hkind
      obtain ⟨c, d, cs, rfl, hc, hcs⟩ := exists_of_isPlainWord hv
      obtain ⟨c', d', cs', rfl, hc', hcs'⟩ := exists_of_isPlainWord hw
      rw [namespaceWord, namespaceWord, habbreviation, ← hkind,
        if_neg Bool.false_ne_true, if_neg Bool.false_ne_true, capitalize_of_isLower hc,
        capitalize_of_isLower hc'] at h
      obtain ⟨hfirst, htail⟩ : c.toUpper = c'.toUpper
          ∧ d :: cs ++ rest = d' :: cs' ++ rest' := List.cons.inj h
      have hletters := congrArg (List.takeWhile fun x => !x.isUpper) htail
      rw [takeWhile_append_of_startsUpper hcs hrest,
        takeWhile_append_of_startsUpper hcs' hrest'] at hletters
      rw [toUpper_inj hc hc' hfirst, hletters]
  subst hsame
  exact ⟨rfl, append_cancel_left h⟩

theorem flatten_namespaceWord_inj {vs : List (List Char)}
    (hvs : ∀ v ∈ vs, isPlainWord v = true) (hws : ∀ w ∈ ws, isPlainWord w = true)
    (h : (vs.map namespaceWord).flatten = (ws.map namespaceWord).flatten) :
    vs = ws := by
  have hne : ∀ w : List Char, isPlainWord w = true →
      ∀ rest, namespaceWord w ++ rest ≠ [] := by
    intro w hw rest hnil
    obtain ⟨x, y, cs, hx, -⟩ := isUpper_second hw
    rw [hx] at hnil
    cases hnil
  have hstarts : ∀ us : List (List Char), (∀ u ∈ us, isPlainWord u = true) →
      StartsUpper (us.map namespaceWord).flatten := by
    intro us hus
    cases us with
    | nil => exact fun c hc => nomatch hc
    | cons u us => exact startsUpper_namespaceWord (hus u mem_cons_self) _
  induction vs generalizing ws with
  | nil =>
    cases ws with
    | nil => rfl
    | cons w ws => exact absurd h.symm (hne w (hws w mem_cons_self) _)
  | cons v vs ih =>
    cases ws with
    | nil => exact absurd h (hne v (hvs v mem_cons_self) _)
    | cons w ws =>
      rw [forall_mem_cons] at hvs hws
      rw [map_cons, flatten_cons, map_cons, flatten_cons] at h
      obtain ⟨rfl, hrest⟩ :=
        eq_of_append_eq hvs.1 hws.1 (hstarts vs hvs.2) (hstarts ws hws.2) h
      rw [ih hvs.2 hws.2 hrest]

/-- Hyphenated names have namespaces of their own. -/
theorem namespaceName_inj (h : isHyphenated name = true)
    (h' : isHyphenated name' = true) :
    namespaceName name = namespaceName name' ↔ name = name' := by
  obtain ⟨ws, -, hws, rfl⟩ := isHyphenated_iff.1 h
  obtain ⟨vs, -, hvs, rfl⟩ := isHyphenated_iff.1 h'
  refine ⟨fun heq => ?_, fun heq => by rw [heq]⟩
  rw [namespaceName, namespaceName, words_intercalate fun w hw => settled_of_isPlainWord
    (hws w hw), words_intercalate fun v hv => settled_of_isPlainWord (hvs v hv)] at heq
  rw [flatten_namespaceWord_inj hws hvs heq]

/-! ## Actions -/

/-- Whether a name starts with a lower case letter and has no separator. -/
def isSinglePiece : List Char → Bool
  | [] => false
  | c :: cs => c.isLower && cs.all fun d => !isSeparator d

theorem pascalCase_of_isSinglePiece (h : isSinglePiece name = true) :
    pascalCase name = capitalize name := by
  have hseparators : ∀ c ∈ name, isSeparator c = false := by
    cases name with
    | nil => exact fun c hc => nomatch hc
    | cons c cs =>
      rw [isSinglePiece, Bool.and_eq_true, all_eq_true] at h
      have hword : isWordChar c = true := by rw [isWordChar, h.1, Bool.true_or]
      exact forall_mem_cons.2 ⟨(of_isWordChar hword).2.2,
        fun d hd => by simpa using h.2 d hd⟩
  have hsplit : name.splitOnP isSeparator = [name] := splitOnP_eq_singleton fun c hc => by
    rw [hseparators c hc]
  cases name with
  | nil => cases h
  | cons c cs => simp [pascalCase, Text.pieces, hsplit]

theorem pascalCase_inj (h : isSinglePiece name = true) (h' : isSinglePiece name' = true) :
    pascalCase name = pascalCase name' ↔ name = name' := by
  refine ⟨fun heq => ?_, fun heq => by rw [heq]⟩
  rw [pascalCase_of_isSinglePiece h, pascalCase_of_isSinglePiece h'] at heq
  match name, name' with
  | c :: cs, c' :: cs' =>
    rw [isSinglePiece, Bool.and_eq_true] at h h'
    rw [capitalize_of_isLower h.1, capitalize_of_isLower h'.1] at heq
    obtain ⟨hfirst, hrest⟩ := List.cons.inj heq
    rw [toUpper_inj h.1 h'.1 hfirst, hrest]

end Naming

end TypedContent
