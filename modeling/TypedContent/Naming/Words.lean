import TypedContent.Text.Basic
import TypedContent.Text.LetterCase

/-!
# Words of a name

Names reach the program in many spellings: `guide-type`, `guide_type`,
`GuideType`. The spellings the output needs are all built from the *words*
of a name. Separators end a word everywhere; `words` also ends one where the
case of the letters does, so `SEOBlock` has the words `seo` and `block`.
-/

namespace TypedContent

namespace Naming

def isSeparator (c : Char) : Bool :=
  c == '-' || c == '_' || c == '.' || c == ' ' || c == '/'

/-- The first character in upper case. -/
def capitalize : List Char → List Char
  | [] => []
  | c :: cs => Text.upper c ++ cs

/-- The first character in lower case. -/
def uncapitalize : List Char → List Char
  | [] => []
  | c :: cs => Text.lower c ++ cs

/-- `guide-type` becomes `GuideType`. -/
def pascalCase (cs : List Char) : List Char :=
  ((Text.pieces isSeparator cs).map capitalize).flatten

/-- `save-games` becomes `saveGames`. -/
def camelCase (cs : List Char) : List Char :=
  uncapitalize (pascalCase cs)

/-! ## Words by letter case -/

/-- Whether an upper case letter starts a word, by its two neighbours: after
a lower case letter or a digit, and after an upper case letter when a lower
case one follows. -/
def startsWord (before after : Option Char) : Bool :=
  match before with
  | none => false
  | some b => b.isLower || b.isDigit || (b.isUpper && after.any Char.isLower)

/-- Put a character in front of the first word. -/
def consWord (c : Char) : List (List Char) → List (List Char)
  | [] => [[c]]
  | word :: rest => (c :: word) :: rest

/-- The words of a name in lower case, with empty ones where separators
meet. `before` is the character in front of the text, and the first word of
the answer continues the word it is in. -/
def wordsFrom (before : Option Char) : List Char → List (List Char)
  | [] => [[]]
  | c :: cs =>
    if isSeparator c then [] :: wordsFrom (some c) cs
    else
      let rest := consWord c.toLower (wordsFrom (some c) cs)
      if c.isUpper && startsWord before cs.head? then [] :: rest else rest

def words (cs : List Char) : List (List Char) :=
  (wordsFrom none cs).filter (· ≠ [])

/-- The words joined by hyphens: `SaveGame` becomes `save-game`. -/
def kebabCase (cs : List Char) : List Char :=
  ['-'].intercalate (words cs)

/-! ## Endpoints and namespaces -/

def isConsonant (c : Char) : Bool :=
  c.isAlpha && !(['a', 'e', 'i', 'o', 'u'].contains c)

/-- Whether a word takes `es` in the plural. -/
def takesEs (cs : List Char) : Bool :=
  ["s", "x", "z", "ch", "sh"].any fun ending => ending.toList.isSuffixOf cs

/-- The English plural of a word. -/
def plural (cs : List Char) : List Char :=
  match ['y'].isSuffixOf? cs with
  | some stem =>
    if stem.getLast?.any isConsonant then stem ++ "ies".toList else cs ++ ['s']
  | none => if takesEs cs then cs ++ "es".toList else cs ++ ['s']

/-- The path segment of an entity: plural unless the entity has a single
instance. -/
def endpointName (name : List Char) (single : Bool) : List Char :=
  if single then kebabCase name else plural (kebabCase name)

/-- Words that stand in upper case in the name of a namespace. -/
def abbreviations : List (List Char) :=
  ["ai", "api", "cms", "csv", "faq", "html", "http", "id", "json", "jwt", "otp", "pdf",
    "seo", "sms", "sso", "ui", "url"].map String.toList

def namespaceWord (word : List Char) : List Char :=
  if abbreviations.contains word then word.map Char.toUpper else capitalize word

/-- The namespace of a controller: `ai-chat` becomes `AIChat`. -/
def namespaceName (controller : List Char) : List Char :=
  ((words controller).map namespaceWord).flatten

/-! ## Repetition -/

/-- The first half of a text whose two halves differ in ASCII letter case at
most; any other text whole. -/
def collapse (cs : List Char) : List Char :=
  let half := cs.take (cs.length / 2)
  if half.map Char.toLower = (cs.drop (cs.length / 2)).map Char.toLower then half else cs

end Naming

end TypedContent
