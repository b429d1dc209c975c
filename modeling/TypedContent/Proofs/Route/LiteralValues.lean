import TypedContent.Proofs.Source.Entries
import TypedContent.Route.Module

/-!
# Literals in a routes module

The texts of a route are taken from member values that are string literals.
Which value each text comes from is told by `RouteValues`: a module is read
as values first (`readValues`), and its descriptors are what these say
without their quotes (`read_eq_map`).

A value counts as a literal if it starts and ends with the same quote. Such
a value can still be more than one literal, `'/a/' + base + '/b'` for
example; it is a single one exactly if no quote between the outer ones is
left unescaped (`isLiteralOf_iff`). The prefix of the module is not tested
at all. So the texts of a descriptor are those of single literals exactly if
its values have no bare quote inside and the prefix, wherever it comes from,
stands in quotes (`descriptors_carry_literals_iff`).
-/

namespace TypedContent

open List Option Source Text

variable {value body : List Char} {v : RouteValues}

/-! ## Single literals -/

namespace Source

/-- A value that is one string literal: the scan that starts at its opening
quote ends with the value. -/
def IsLiteralOf (value text : List Char) : Prop :=
  ∃ quote, isQuote quote = true ∧ value = quote :: text ++ [quote]
    ∧ (literalRest quote (text ++ [quote])).2 = []

/-- Whether a quote stands in a text without a backslash that escapes it. -/
def hasBareQuote (quote : Char) : List Char → Bool
  | [] => false
  | '\\' :: _ :: cs => hasBareQuote quote cs
  | c :: cs => c == quote || hasBareQuote quote cs

/-- Whether the quote that a value starts with stands bare between its two
ends. -/
def endsEarly : List Char → Bool
  | [] => false
  | quote :: rest => hasBareQuote quote rest.dropLast

/-- The scan of a literal passes over escaped quotes and stops at a bare
one. -/
theorem literalRest_append_quote_iff {quote : Char} (hquote : isQuote quote = true)
    (text : List Char) :
    (literalRest quote (text ++ [quote])).2 = [] ↔ hasBareQuote quote text = false := by
  have hslash : quote ≠ '\\' := by
    rintro rfl
    cases hquote
  fun_induction hasBareQuote quote text with
  | case1 => simp [literalRest_cons hslash]
  | case2 c cs ih => simpa [literalRest] using ih
  | case3 c cs hescape ih =>
    by_cases hc : c = '\\'
    · -- a backslash at the end escapes the closing quote, and the value ends
      -- there all the same
      cases cs with
      | nil => simp [hc, literalRest, hasBareQuote, Ne.symm hslash]
      | cons d ds => exact absurd rfl (hescape d ds hc)
    · rw [cons_append, literalRest_cons hc]
      split
      · rename_i heq
        simp [heq]
      · rename_i hne
        simpa [hne] using ih

theorem eq_of_isQuoted (htrim : trim value = value) (h : isQuoted value = true) :
    ∃ quote, isQuote quote = true ∧ value = quote :: unquote value ++ [quote] := by
  rw [isQuoted, htrim] at h
  cases value with
  | nil => cases h
  | cons quote rest =>
    simp only [Bool.and_eq_true, beq_iff_eq] at h
    refine ⟨quote, h.1, ?_⟩
    have hrest : rest = rest.dropLast ++ [quote] :=
      (dropLast_append_getLast? quote h.2).symm
    have htext : unquote (quote :: rest) = rest.dropLast := by
      rw [unquote, htrim]
      simp [h.1, h.2]
    rw [htext, cons_append, ← hrest]

/-- A value without blanks around it is a single literal, and the text
between its quotes is what is taken from it, exactly if it stands in quotes
and none of them is bare inside. -/
theorem isLiteralOf_iff (htrim : trim value = value) :
    IsLiteralOf value (unquote value)
      ↔ isQuoted value = true ∧ endsEarly value = false := by
  constructor
  · rintro ⟨quote, hquote, hvalue, hscan⟩
    rw [literalRest_append_quote_iff hquote] at hscan
    rw [isQuoted, htrim]
    generalize unquote value = text at hvalue hscan
    subst hvalue
    simpa [hquote, endsEarly] using hscan
  · rintro ⟨hquoted, hends⟩
    obtain ⟨quote, hquote, hvalue⟩ := eq_of_isQuoted htrim hquoted
    refine ⟨quote, hquote, hvalue, (literalRest_append_quote_iff hquote _).2 ?_⟩
    rw [hvalue, cons_append, endsEarly, dropLast_concat] at hends
    exact hends

end Source

/-! ## The values of a descriptor -/

/-- The member values that the texts of a descriptor come from. -/
structure RouteValues where
  method : List Char
  path : List Char
  handler : List Char
  pathPrefix : Option (List Char)
deriving DecidableEq, Repr

namespace RouteModule

/-- The value of the prefix in a route's configuration. -/
def prefixValue? (config : List Char) : Option (List Char) := do
  let block ← block? '{' config
  memberValue? block.inner "prefix".toList

/-- The values of a route object, given what stands between its braces. The
value of the module's prefix is for the routes without one in quotes. -/
def values? (body : List Char)
    (modulePrefix : Option (List Char)) : Option RouteValues := do
  let members := members body
  let method ← (lastValue? members "method").filter isQuoted
  let path ← (lastValue? members "path").filter isQuoted
  let handler ← (lastValue? members "handler").filter isQuoted
  return { method, path, handler
           pathPrefix :=
             (((lastValue? members "config").bind prefixValue?).filter isQuoted).or
               modulePrefix }

/-- The values of the entries of a list of routes. -/
def entryValues (list : List Char)
    (modulePrefix : Option (List Char)) : List RouteValues :=
  (parts [','] list).filterMap fun entry => (block? '{' entry).bind fun object =>
    values? object.inner modulePrefix

/-- The values that a routes module is read from. -/
def readValues (source : String) : Except Error (List RouteValues) :=
  match block? '{' (afterExport source.toList) with
  | none => .error .noRouteModule
  | some object =>
    match routeList? object.inner with
    | none => .error .noRouteList
    | some list => .ok (entryValues list (memberValue? object.inner "prefix".toList))

end RouteModule

namespace RouteValues

/-- The descriptor with the texts of the values. -/
def descriptor (v : RouteValues) (plugin : Option String) : RouteDescriptor :=
  { method := String.ofList (unquote v.method)
    path := String.ofList (unquote v.path)
    handler := String.ofList (unquote v.handler)
    pathPrefix := v.pathPrefix.map fun value => String.ofList (unquote value)
    plugin }

/-- The texts of a descriptor are what stands between the quotes of these
values, each of them a single literal. -/
structure AreLiterals (v : RouteValues) (d : RouteDescriptor) : Prop where
  method : IsLiteralOf v.method d.method.toList
  path : IsLiteralOf v.path d.path.toList
  handler : IsLiteralOf v.handler d.handler.toList
  pathPrefix : ∀ text, d.pathPrefix = some text →
    ∃ value, v.pathPrefix = some value ∧ IsLiteralOf value text.toList

/-- No value ends early, and the prefix stands in quotes. -/
structure IsPlain (v : RouteValues) : Prop where
  method : endsEarly v.method = false
  path : endsEarly v.path = false
  handler : endsEarly v.handler = false
  pathPrefix : ∀ value, v.pathPrefix = some value →
    isQuoted value = true ∧ endsEarly value = false

end RouteValues

namespace RouteModule

theorem bind_literal? (value : Option (List Char)) :
    value.bind literal? = (value.filter isQuoted).map fun value =>
      String.ofList (unquote value) := by
  cases value with
  | none => rfl
  | some value =>
    cases hquoted : isQuoted value <;> simp [literal?, Option.filter, hquoted]

theorem configPrefix?_eq (config : List Char) :
    configPrefix? config = (prefixValue? config).bind literal? := by
  rw [configPrefix?, prefixValue?]
  cases block? '{' config <;> rfl

/-- A route object is read through its values. -/
theorem map_descriptor?_eq (body : List Char) (modulePrefix : Option (List Char))
    (plugin : Option String) :
    ((descriptor? body).map fun d =>
        { d with
          pathPrefix := d.pathPrefix.or
            (modulePrefix.map fun value => String.ofList (unquote value)), plugin })
      = (values? body modulePrefix).map (·.descriptor plugin) := by
  have hread : descriptor? body
      = ((lastValue? (members body) "method").bind literal?).bind fun method =>
          ((lastValue? (members body) "path").bind literal?).bind fun path =>
            ((lastValue? (members body) "handler").bind literal?).bind fun handler =>
              some
                { method, path, handler
                  pathPrefix :=
                    ((lastValue? (members body) "config").bind prefixValue?).bind
                      literal? } := by
    simp only [bind_assoc, ← configPrefix?_eq]
    rfl
  rw [hread]
  simp only [bind_literal?, values?]
  cases (lastValue? (members body) "method").filter isQuoted with
  | none => rfl
  | some method =>
    cases (lastValue? (members body) "path").filter isQuoted with
    | none => rfl
    | some path =>
      cases (lastValue? (members body) "handler").filter isQuoted with
      | none => rfl
      | some handler => simp [RouteValues.descriptor, map_or]

theorem read_eq_map (source : String) (plugin : Option String) :
    read source plugin = (readValues source).map fun values =>
      values.map (·.descriptor plugin) := by
  rw [read, readValues]
  cases block? '{' (afterExport source.toList) with
  | none => rfl
  | some object =>
    dsimp only
    cases routeList? object.inner with
    | none => rfl
    | some list =>
      simp only [Except.map, entries, entryValues, map_filterMap]
      congr 2
      funext entry
      cases block? '{' entry with
      | none => rfl
      | some block =>
        rw [bind_some, ← map_descriptor?_eq]
        change (descriptor? block.inner).bind (fun d => some _) = _
        cases descriptor? block.inner <;> rfl

/-! ## The shape of the values -/

theorem trim_value_of_mem_members {m : Member} (h : m ∈ members body) :
    trim m.value = m.value := by
  obtain ⟨entry, -, hread⟩ := mem_filterMap.1 h
  rw [member?_eq_keyed?] at hread
  obtain ⟨⟨key, name, isOptional, value⟩, -, hnamed⟩ := bind_eq_some_iff.1 hread
  rw [namedMember?] at hnamed
  split at hnamed
  · cases hnamed
    exact trim_trim value
  · cases hnamed

theorem trim_of_memberValue? {key : List Char} (h : memberValue? body key = some value) :
    trim value = value := by
  obtain ⟨m, hfind, rfl⟩ := map_eq_some_iff.1 h
  exact trim_value_of_mem_members (mem_of_find?_eq_some hfind)

theorem trim_of_lastValue? {name : String}
    (h : lastValue? (members body) name = some value) : trim value = value := by
  obtain ⟨m, hlast, rfl⟩ := map_eq_some_iff.1 h
  exact trim_value_of_mem_members (mem_of_mem_filter (mem_of_getLast? hlast))

theorem trim_of_prefixValue? {config : List Char} (h : prefixValue? config = some value) :
    trim value = value := by
  obtain ⟨block, -, hvalue⟩ := bind_eq_some_iff.1 h
  exact trim_of_memberValue? hvalue

end RouteModule

/-- What holds of all values that a module is read from: none has blanks
around it, and all but the module's prefix stand in quotes. -/
structure RouteValues.IsRead (v : RouteValues) : Prop where
  method : trim v.method = v.method ∧ isQuoted v.method = true
  path : trim v.path = v.path ∧ isQuoted v.path = true
  handler : trim v.handler = v.handler ∧ isQuoted v.handler = true
  pathPrefix : ∀ value, v.pathPrefix = some value → trim value = value

namespace RouteModule

theorem isRead_of_values? {modulePrefix : Option (List Char)}
    (hstart : ∀ value, modulePrefix = some value → trim value = value)
    (h : values? body modulePrefix = some v) : v.IsRead := by
  obtain ⟨method, hmethod, h⟩ := bind_eq_some_iff.1 h
  obtain ⟨path, hpath, h⟩ := bind_eq_some_iff.1 h
  obtain ⟨handler, hhandler, h⟩ := bind_eq_some_iff.1 h
  obtain rfl := Option.some.inj h
  rw [filter_eq_some_iff] at hmethod hpath hhandler
  refine ⟨⟨trim_of_lastValue? hmethod.1, hmethod.2⟩,
    ⟨trim_of_lastValue? hpath.1, hpath.2⟩,
    ⟨trim_of_lastValue? hhandler.1, hhandler.2⟩, fun value hvalue => ?_⟩
  rcases or_eq_some_iff.1 hvalue with hown | ⟨-, hmodule⟩
  · obtain ⟨config, -, hconfig⟩ := bind_eq_some_iff.1 (filter_eq_some_iff.1 hown).1
    exact trim_of_prefixValue? hconfig
  · exact hstart value hmodule

theorem isRead_of_mem_readValues {source : String} {values : List RouteValues}
    (h : readValues source = .ok values) (hv : v ∈ values) :
    v.IsRead := by
  rw [readValues] at h
  split at h
  · cases h
  · split at h
    · cases h
    · obtain rfl := Except.ok.inj h
      obtain ⟨entry, -, hentry⟩ := mem_filterMap.1 hv
      obtain ⟨object, -, hobject⟩ := bind_eq_some_iff.1 hentry
      exact isRead_of_values? (fun value hvalue => trim_of_memberValue? hvalue) hobject

end RouteModule

/-- The texts of values as they are read are those of literals exactly if
the values are plain. -/
theorem RouteValues.IsRead.areLiterals_iff (h : v.IsRead) (plugin : Option String) :
    v.AreLiterals (v.descriptor plugin) ↔ v.IsPlain := by
  have hfield : ∀ {value : List Char}, trim value = value ∧ isQuoted value = true →
      (IsLiteralOf value (String.ofList (unquote value)).toList
        ↔ endsEarly value = false) := fun hvalue => by
    rw [String.toList_ofList, isLiteralOf_iff hvalue.1, and_iff_right hvalue.2]
  have hstart : ∀ value, v.pathPrefix = some value →
      (IsLiteralOf value (String.ofList (unquote value)).toList
        ↔ isQuoted value = true ∧ endsEarly value = false) :=
    fun value hvalue => by
      rw [String.toList_ofList, isLiteralOf_iff (h.pathPrefix value hvalue)]
  constructor
  · intro hliterals
    refine ⟨(hfield h.method).1 hliterals.method, (hfield h.path).1 hliterals.path,
      (hfield h.handler).1 hliterals.handler,
        fun value hvalue => (hstart value hvalue).1 ?_⟩
    obtain ⟨value', hvalue', hliteral⟩ :=
      hliterals.pathPrefix _ (by rw [descriptor, hvalue]; rfl)
    rw [hvalue] at hvalue'
    obtain rfl := Option.some.inj hvalue'
    exact hliteral
  · intro hplain
    refine ⟨(hfield h.method).2 hplain.method, (hfield h.path).2 hplain.path,
      (hfield h.handler).2 hplain.handler,
      fun text htext => ?_⟩
    obtain ⟨value, hvalue, rfl⟩ := map_eq_some_iff.1 htext
    exact ⟨value, hvalue, (hstart value hvalue).2 (hplain.pathPrefix value hvalue)⟩

/-- **When the texts of a routes module are string literals.** A module is
read through the values of members, and the texts of each descriptor are
what stands between the quotes of its values. Each of these is a single
string literal exactly if no value has the quote it starts with bare between
its ends, and the value of the prefix, be it of the route or of the module,
stands in quotes. -/
theorem descriptors_carry_literals_iff (source : String) (plugin : Option String) :
    RouteModule.read source plugin
        = (RouteModule.readValues source).map
          (fun values => values.map (·.descriptor plugin))
      ∧ ∀ values, RouteModule.readValues source = .ok values →
        ∀ v ∈ values, v.AreLiterals (v.descriptor plugin) ↔ v.IsPlain :=
  ⟨RouteModule.read_eq_map source plugin, fun _ hvalues _ hv =>
    (RouteModule.isRead_of_mem_readValues hvalues hv).areLiterals_iff plugin⟩

/-- A module with all three quotes, one of them escaped inside a literal. -/
def quotedModule : String :=
  "export default \x7b prefix: `/shop`, "
    ++ "routes: [\x7b method: 'GET', path: '/it\\'s/:id', handler: \"order.get\" \x7d] \x7d;"

/-- The values of its route. -/
def quotedValues : RouteValues :=
  { method := "'GET'".toList
    path := "'/it\\'s/:id'".toList
    handler := "\"order.get\"".toList
    pathPrefix := some "`/shop`".toList }

theorem descriptors_carry_literals_quoted :
    RouteModule.readValues quotedModule = .ok [quotedValues]
      ∧ quotedValues.AreLiterals (quotedValues.descriptor (some "shop")) := by
  have hvalues : RouteModule.readValues quotedModule = .ok [quotedValues] := by
    decide +kernel
  refine ⟨hvalues,
    ((descriptors_carry_literals_iff quotedModule (some "shop")).2 _ hvalues _
    mem_cons_self).2 ⟨by decide, by decide, by decide, fun value hvalue => ?_⟩⟩
  cases hvalue
  decide

/-- A module with a path that is put together and a prefix that is a
name. -/
def computedModule : String :=
  "export default \x7b prefix: base, routes: [\x7b method: 'GET', path: '/a/' + base + '/b', handler: 'x.y' \x7d] \x7d"

/-- The values of its route. -/
def computedValues : RouteValues :=
  { method := "'GET'".toList
    path := "'/a/' + base + '/b'".toList
    handler := "'x.y'".toList
    pathPrefix := some "base".toList }

/-- The route is read, and neither its path nor its prefix is the text of a
literal. -/
theorem expressions_taken_for_literals :
    RouteModule.readValues computedModule = .ok [computedValues]
      ∧ RouteModule.read computedModule none
        = .ok [{ method := "GET", path := "/a/' + base + '/b", handler := "x.y",
                 pathPrefix := some "base" }]
      ∧ ¬ IsLiteralOf "'/a/' + base + '/b'".toList "/a/' + base + '/b".toList
      ∧ ¬ IsLiteralOf "base".toList "base".toList := by
  refine ⟨by decide +kernel, by decide +kernel, fun hpath => ?_, fun hstart => ?_⟩
  · exact absurd ((isLiteralOf_iff (by decide)).1 hpath).2 (by decide)
  · exact absurd ((isLiteralOf_iff (by decide)).1 hstart).1 (by decide)

end TypedContent
