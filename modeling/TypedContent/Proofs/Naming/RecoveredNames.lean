import TypedContent.Naming.Uid
import TypedContent.Proofs.Naming.Characters
import TypedContent.Proofs.Naming.HyphenatedNames
import TypedContent.Proofs.Source.Keys
import TypedContent.Proofs.Source.SquashedTexts

/-!
# Names that are recovered

The interface of an entity that no registry lists is all that is known of
it: `ApiOrderItemOrderItem` has lost the hyphens of `order-item` and says it
twice. For a hyphenated name nothing is lost. Each of its words starts with
a capital, behind a small letter or a digit, so the words are found again
(`words_capitals`) and with them the name (`kebabCase_pascalCase`). A text
that is a name twice, whatever the case of its letters, is so at its middle
only, so the middle is where a search for the last such place ends
(`collapse_eq_search`), and the first half is taken (`collapse_append`). The
plugins that may stand in front of a name are hyphenated names too, and none
of them starts another one with a hyphen behind it (`knownPlugin?_append`).
-/

namespace TypedContent

open List

namespace Naming

open Text (fold)

variable {ws : List (List Char)}

/-! ## Words with a capital -/

/-- A capital starts a word if a word stands in front of it. -/
theorem wordsFrom_capitalize {w rest : List Char} (hw : isPlainWord w = true)
    (hrest : ∀ b, isWordChar b = true → wordsFrom (some b) rest = [] :: ws) :
    wordsFrom none (capitalize w ++ rest) = w :: ws
      ∧ ∀ b, isWordChar b = true → wordsFrom (some b) (capitalize w ++ rest)
        = [] :: w :: ws := by
  obtain ⟨c, d, cs, rfl, hc, hcs⟩ := exists_of_isPlainWord hw
  have hword : isWordChar c = true := by rw [isWordChar, hc, Bool.true_or]
  have hascii : c.toNat < 128 := by
    have hbounds := toNat_of_isLower hc
    omega
  obtain ⟨-, -, hback, -, -⟩ := Text.ascii_letter hascii
  -- the capital goes back to the letter it was made of
  have hlower : c.toUpper.toLower = c := by rw [hback, (of_isWordChar hword).2.1]
  have hseparator : isSeparator c.toUpper = false := by
    have hupper : c.toUpper.toNat < 128 := by
      rw [toNat_toUpper_of_isLower hc]
      omega
    rw [← (Text.ascii_letter hupper).2.2.2.2, hlower]
    exact (of_isWordChar hword).2.2
  have htail : wordsFrom (some c.toUpper) (d :: cs ++ rest) = (d :: cs) :: ws :=
    wordsFrom_run hcs hrest fun hnil => absurd hnil (cons_ne_nil d cs)
  have hstep (before : Option Char) : wordsFrom before (c.toUpper :: (d :: cs ++ rest))
      = if startsWord before (some d) then [] :: (c :: d :: cs) :: ws
        else (c :: d :: cs) :: ws := by
    rw [wordsFrom, if_neg (by simp [hseparator]), htail, hlower, isUpper_toUpper hc,
      Bool.true_and]
    rfl
  rw [capitalize_of_isLower hc, cons_append]
  refine ⟨hstep none, fun b hb => ?_⟩
  have hstarts : startsWord (some b) (some d) = true := by
    rw [isWordChar] at hb
    simp [startsWord, hb]
  rw [hstep, if_pos hstarts]

theorem wordsFrom_capitals (h : ∀ w ∈ ws, isPlainWord w = true) :
    ∀ b, isWordChar b = true → wordsFrom (some b) (ws.map capitalize).flatten
      = [] :: ws := by
  induction ws with
  | nil => exact fun b _ => rfl
  | cons w ws ih =>
    rw [forall_mem_cons] at h
    rw [map_cons, flatten_cons]
    exact (wordsFrom_capitalize h.1 (ih h.2)).2

/-- Plain words that start with capitals are found again. -/
theorem words_capitals (h : ∀ w ∈ ws, isPlainWord w = true) :
    words (ws.map capitalize).flatten = ws := by
  cases ws with
  | nil => rfl
  | cons w ws =>
    have hne : ∀ v ∈ w :: ws, v ≠ [] := by
      intro v hv
      obtain ⟨c, d, cs, rfl, -⟩ := exists_of_isPlainWord (h v hv)
      exact cons_ne_nil _ _
    rw [forall_mem_cons] at h
    rw [words, map_cons, flatten_cons,
      (wordsFrom_capitalize h.1 (wordsFrom_capitals h.2)).1,
      filter_eq_self.2 (by simpa using hne)]

theorem pascalCase_intercalate (h : ∀ w ∈ ws, isPlainWord w = true) :
    pascalCase (['-'].intercalate ws) = (ws.map capitalize).flatten := by
  have hhyphen : isSeparator '-' = true := by decide
  have hpieces : Text.pieces isSeparator (['-'].intercalate ws) = ws :=
    Source.stretches_intercalate hhyphen fun w hw =>
      (settled_of_isPlainWord (h w hw)).parts
  rw [pascalCase, hpieces]

theorem kebabCase_pascalCase {name : List Char} (h : isHyphenated name = true) :
    kebabCase (pascalCase name) = name := by
  obtain ⟨ws, -, hws, rfl⟩ := isHyphenated_iff.1 h
  rw [pascalCase_intercalate hws, kebabCase, words_capitals hws]

/-- Which separator stands between two parts of a name makes no
difference. -/
theorem pascalCase_append {s : Char} (hs : isSeparator s = true) (xs ys : List Char) :
    pascalCase (xs ++ s :: ys) = pascalCase xs ++ pascalCase ys := by
  simp only [pascalCase, Text.pieces, splitOnP_append_cons xs ys hs, filter_append,
    map_append, flatten_append]

/-- Hyphens aside, a hyphenated name has small letters and digits. -/
theorem isWordChar_or_eq_of_mem {name : List Char} (h : isHyphenated name = true) :
    ∀ c ∈ name, isWordChar c = true ∨ c = '-' := by
  obtain ⟨ws, -, hws, rfl⟩ := isHyphenated_iff.1 h
  exact forall_mem_intercalate (.inr rfl) fun w hw c hc =>
    .inl (isWordChar_of_isPlainWord (hws w hw) c hc)

theorem notMem_of_isHyphenated {name : List Char} (h : isHyphenated name = true) :
    ':' ∉ name ∧ '.' ∉ name := by
  have hnot {c : Char} (hc : isWordChar c = false) (hhyphen : c ≠ '-') : c ∉ name := by
    intro hmem
    rcases isWordChar_or_eq_of_mem h c hmem with hword | heq
    · rw [hc] at hword
      cases hword
    · exact hhyphen heq
  exact ⟨hnot (by decide) (by decide), hnot (by decide) (by decide)⟩

/-! ## Names said twice -/

/-- Collapsing finds the last place at which a text repeats what is in front
of it. There is only one such place, the middle. -/
theorem collapse_eq_search (cs : List Char) :
    collapse cs = (((List.range cs.length).filter (0 < ·)).reverse.find? fun n =>
      decide ((cs.drop n).map Char.toLower = (cs.take n).map Char.toLower)).elim cs
        (cs.take ·) := by
  have hmiddle : ∀ n < cs.length, (cs.drop n).map Char.toLower
      = (cs.take n).map Char.toLower → n = cs.length / 2 := by
    intro n hn heq
    have hlength := congrArg List.length heq
    simp only [length_map, length_drop, length_take] at hlength
    omega
  cases hfind : List.find? _ _ with
  | some n =>
    have heq : (cs.drop n).map Char.toLower = (cs.take n).map Char.toLower := by
      simpa using find?_some hfind
    have hn := mem_of_find?_eq_some hfind
    rw [mem_reverse, mem_filter, mem_range] at hn
    obtain rfl := hmiddle n hn.1 heq
    exact if_pos heq.symm
  | none =>
    refine ite_eq_right_iff.2 fun heq => ?_
    have hlength := congrArg List.length heq
    have hnone :
        cs.length / 2 ∉ ((List.range cs.length).filter (0 < ·)).reverse := fun hmem =>
      find?_eq_none.1 hfind _ hmem (decide_eq_true heq.symm)
    simp only [length_map, length_drop, length_take] at hlength
    rw [mem_reverse, mem_filter, mem_range, decide_eq_true_iff] at hnone
    have hempty : cs.length = 0 := by omega
    rw [length_eq_zero_iff.1 hempty]
    rfl

/-- Two parts that are equal apart from letter case are the halves of a
text. -/
theorem collapse_append {first second : List Char} (h : fold first = fold second) :
    collapse (first ++ second) = first := by
  have hlength : first.length = second.length := by
    simpa [fold] using congrArg List.length h
  have hhalf : (first ++ second).length / 2 = first.length := by
    rw [length_append]
    omega
  rw [collapse, hhalf, take_left, drop_left]
  exact if_pos h

theorem collapse_eq_self {cs : List Char}
    (h : ∀ first second, cs = first ++ second → fold first ≠ fold second) :
    collapse cs = cs :=
  if_neg (h _ _ (take_append_drop _ cs).symm)

end Naming

/-! ## UIDs of interfaces -/

namespace Uid

open Naming
open Text (fold)

/-- A name in one word, with a capital for each of its parts. -/
def joined (name : String) : String :=
  String.ofList (pascalCase name.toList)

theorem toList_joined (name : String) : (joined name).toList = pascalCase name.toList :=
  String.toList_ofList

theorem split_of_namespace {space : List Char} (h : ':' ∉ space) (rest : List Char) :
    split (String.ofList (space ++ (':' :: ':' :: rest)))
      = (some (String.ofList space), String.ofList rest) := by
  have hcut :
      Text.cutAt? [':', ':'] (space ++ (':' :: ':' :: rest)) = some (space, rest) :=
    Text.cutAt?_cons_append h [':'] rest
  rw [split, String.toList_ofList, hcut]

theorem typeName_of_namespace {space name : List Char} (hspace : ':' ∉ space)
    (hname : '.' ∉ name) (before : List Char) :
    typeName (String.ofList (space ++ (':' :: ':' :: (before ++ '.' :: name))))
      = String.ofList (pascalCase name) := by
  have hsplit := split_of_namespace hspace (before ++ '.' :: name)
  rw [typeName, hsplit, lastSegment, hsplit, String.toList_ofList, String.toList_ofList,
    Text.afterLast_append hname]

theorem typeName_of_no_namespace {cs : List Char} (h : ':' ∉ cs) :
    typeName (String.ofList cs) = String.ofList (pascalCase cs) := by
  have hsplit : split (String.ofList cs) = (none, String.ofList cs) := by
    rw [split, String.toList_ofList, Text.cutAt?_cons_eq_none h]
  simp only [typeName, hsplit, String.toList_ofList]

/-- The first known plugin that a name starts with is the one in front of
it. -/
theorem knownPlugin?_append {plugin : String} (h : plugin ∈ knownPlugins)
    (name : List Char) :
    knownPlugin? (plugin.toList ++ '-' :: name) = some (plugin.toList, name) := by
  simp only [knownPlugins, mem_cons, not_mem_nil, or_false] at h
  rcases h with rfl | rfl | rfl | rfl | rfl <;> rfl

theorem isHyphenated_of_mem_knownPlugins :
    ∀ plugin ∈ knownPlugins, isHyphenated plugin.toList = true := by
  decide

section

variable {name : String} (hname : isHyphenated name.toList = true)

include hname

theorem ofInterface_api {again : String}
    (hagain : fold again.toList = fold (joined name).toList) :
    ofInterface ("Api" ++ joined name ++ again) false
      = "api::" ++ name ++ "." ++ name := by
  have hprefix : "Api".toList.isPrefixOf? ("Api" ++ joined name ++ again).toList
      = some ((joined name).toList ++ again.toList) := by
    rw [isPrefixOf?_eq_some_iff_append_eq, String.toList_append,
      String.toList_append, append_assoc]
  have hkebab : kebabCase (joined name).toList = name.toList := by
    rw [toList_joined, kebabCase_pascalCase hname]
  have hapi : ofApiInterface ((joined name).toList ++ again.toList)
      = "api::".toList ++ kebabCase (collapse ((joined name).toList ++ again.toList))
        ++ '.' :: kebabCase (collapse ((joined name).toList ++ again.toList)) := rfl
  rw [ofInterface, if_neg Bool.false_ne_true, ofEntityInterface, hprefix]
  simp only [hapi, collapse_append hagain.symm, hkebab]
  rw [← String.toList_inj, String.toList_ofList]
  simp only [String.toList_append, append_assoc]
  rfl

theorem typeName_api : typeName ("api::" ++ name ++ "." ++ name) = joined name := by
  have huid : "api::" ++ name ++ "." ++ name
      = String.ofList ("api".toList
        ++ (':' :: ':' :: (name.toList ++ '.' :: name.toList))) := by
    rw [← String.toList_inj, String.toList_ofList]
    simp only [String.toList_append, append_assoc]
    rfl
  rw [huid, typeName_of_namespace (by decide) (notMem_of_isHyphenated hname).2, joined]

theorem ofInterface_plugin {plugin : String} (hplugin : plugin ∈ knownPlugins) :
    ofInterface ("Plugin" ++ joined plugin ++ joined name) false
      = "plugin::" ++ plugin ++ "." ++ name := by
  have hapi : "Api".toList.isPrefixOf?
      ("Plugin" ++ joined plugin ++ joined name).toList = none := by
    rw [String.toList_append, String.toList_append, append_assoc]
    rfl
  have hprefix :
      "Plugin".toList.isPrefixOf? ("Plugin" ++ joined plugin ++ joined name).toList
      = some (pascalCase (plugin.toList ++ '-' :: name.toList)) := by
    rw [isPrefixOf?_eq_some_iff_append_eq, pascalCase_append (by decide),
      String.toList_append, String.toList_append, toList_joined,
      toList_joined, append_assoc]
  have hkebab : kebabCase (pascalCase (plugin.toList ++ '-' :: name.toList))
      = plugin.toList ++ '-' :: name.toList :=
    kebabCase_pascalCase
      (isHyphenated_append (isHyphenated_of_mem_knownPlugins plugin hplugin) hname)
  rw [ofInterface, if_neg Bool.false_ne_true, ofEntityInterface, hapi, hprefix]
  simp only [ofPluginInterface, hkebab, knownPlugin?_append hplugin]
  rw [← String.toList_inj, String.toList_ofList]
  simp only [String.toList_append, append_assoc]
  rfl

theorem typeName_component : typeName (ofInterface (joined name) true) = joined name := by
  have hpoint : isSeparator '.' = true ∧ isSeparator '-' = true := by decide
  rw [ofInterface, if_pos rfl, toList_joined, kebabCase_pascalCase hname, dotted]
  have hcolon := (notMem_of_isHyphenated hname).1
  split
  · rename_i category rest hcut
    -- the point in place of the first hyphen is a separator too
    obtain ⟨hsplit, -⟩ := Source.cutAt?_eq_some hcut
    rw [hsplit, mem_append, mem_cons, not_or, not_or] at hcolon
    have hnone : ':' ∉ category ++ '.' :: rest := by
      rw [mem_append, mem_cons]
      exact not_or.2 ⟨hcolon.1, not_or.2 ⟨by decide, hcolon.2.2⟩⟩
    rw [typeName_of_no_namespace hnone, joined, hsplit, pascalCase_append hpoint.1,
      pascalCase_append hpoint.2]
  · rw [if_neg Bool.false_ne_true, typeName_of_no_namespace hcolon, joined]

/-- **A hyphenated name is recovered from the names of interfaces.** Its
spelling in one word gives it back. An interface that says it twice, the
second time in whatever case, has its UID, and the type of that UID is its
spelling in one word. Behind a known plugin it is the name of an entity of
that plugin, and the type of a component is what its interface is called. Of
any text the first half is taken if the two halves are equal apart from
case, and otherwise the whole. -/
theorem uids_recovered :
    kebabCase (joined name).toList = name.toList
      ∧ (∀ again : String, fold again.toList = fold (joined name).toList →
        ofInterface ("Api" ++ joined name ++ again) false = "api::" ++ name ++ "." ++ name
          ∧ typeName (ofInterface ("Api" ++ joined name ++ again) false) = joined name)
      ∧ (∀ plugin ∈ knownPlugins,
        ofInterface ("Plugin" ++ joined plugin ++ joined name) false
          = "plugin::" ++ plugin ++ "." ++ name)
      ∧ typeName (ofInterface (joined name) true) = joined name
      ∧ ∀ cs : List Char, (∀ first second, cs = first ++ second →
        fold first = fold second → collapse cs = first)
        ∧ ((∀ first second, cs = first ++ second → fold first ≠ fold second) →
          collapse cs = cs) := by
  refine ⟨?_, fun again hagain => ?_, fun plugin => ofInterface_plugin hname,
    typeName_component hname,
    fun cs => ⟨?_, collapse_eq_self⟩⟩
  · rw [toList_joined, kebabCase_pascalCase hname]
  · rw [ofInterface_api hname hagain, typeName_api hname]
    exact ⟨rfl, rfl⟩
  · rintro first second rfl hsame
    exact collapse_append hsame

end

/-- A name of two words with digits, said again in another case. -/
theorem uids_recovered_upload2fa :
    isHyphenated "upload2-fa9".toList = true
      ∧ kebabCase "Upload2Fa9".toList = "upload2-fa9".toList
      ∧ ofInterface ("Api" ++ "Upload2Fa9" ++ "uploaD2FA9") false
        = "api::upload2-fa9.upload2-fa9"
      ∧ ofInterface ("Plugin" ++ "I18n" ++ "Upload2Fa9") false
        = "plugin::i18n.upload2-fa9"
      ∧ typeName (ofInterface "Upload2Fa9" true) = "Upload2Fa9" := by
  have hname : isHyphenated "upload2-fa9".toList = true := by decide
  have hjoined : joined "upload2-fa9" = "Upload2Fa9" := by decide
  have hplugin : joined "i18n" = "I18n" := by decide
  obtain ⟨hkebab, hapi, hknown, hcomponent, -⟩ := uids_recovered hname
  rw [hjoined] at hkebab hapi hcomponent
  have hplug := hknown "i18n" (by decide)
  rw [hjoined, hplugin] at hplug
  exact ⟨hname, hkebab, (hapi "uploaD2FA9" (by decide)).1, hplug, hcomponent⟩

end Uid

end TypedContent
