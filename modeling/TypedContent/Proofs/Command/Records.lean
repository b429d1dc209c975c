import TypedContent.Command.Generate
import TypedContent.Proofs.Json.Printing
import TypedContent.Proofs.Source.Keys

/-!
# The fingerprint in the outputs

Every output names the fingerprint of what it was generated from: the two
modules in the comment at their top (`exists_typesModule_render`,
`exists_clientModule_render`), the record in the field `schemaHash`
(`recorded?_metaText`).
-/

namespace TypedContent

/-! ## Modules -/

namespace TypeScript

theorem closeLine_append {s t : String} (h : ∃ c ∈ t.toList, Text.isBlank c = false) :
    closeLine (s ++ t) = s ++ closeLine t := by
  obtain ⟨c, hc, hblank⟩ := h
  obtain ⟨before, after, ht⟩ := List.append_of_mem hc
  apply String.toList_injective
  simp only [closeLine, String.toList_append, String.toList_ofList, ht]
  rw [← List.append_assoc, Source.trimEnd_append_cons hblank,
    Source.trimEnd_append_cons hblank]
  simp

/-- The comment at the top of a module. -/
def Module.headerText (m : Module) : String :=
  renderGroup (m.header.map renderHeaderLine)

/-- A module starts with its comment, unless there is nothing but blanks
behind it. -/
theorem Module.exists_render_eq {m : Module}
    (h : ∃ c ∈ (renderGroup (m.imports.map Import.render) ++ Text.concat
      (m.items.map fun item => item.render ++ "\n")).toList, Text.isBlank c = false) :
    ∃ rest, m.render = m.headerText ++ rest :=
  ⟨_, by rw [Module.render, String.append_assoc, closeLine_append h, headerText]⟩

end TypeScript

open TypeScript

/-- The comment that names a fingerprint. -/
def fingerprintComment (fingerprint : String) : String :=
  "// Generated by cms-typegen. Do not edit.\n"
    ++ ("// Schema hash: " ++ fingerprint ++ "\n") ++ "\n"

theorem renderGroup_pair (first second : String) :
    renderGroup [first, second] = first ++ second ++ "\n" := by
  simp only [renderGroup, Text.concat, String.append_empty]

theorem headerText_of_header {m : Module} {fingerprint : String}
    (h : m.header = moduleHeader fingerprint) :
    m.headerText = fingerprintComment fingerprint := by
  have hfirst : renderHeaderLine "Generated by cms-typegen. Do not edit."
      = "// Generated by cms-typegen. Do not edit.\n" := by
    decide
  have hsecond : renderHeaderLine ("Schema hash: " ++ fingerprint)
      = "// Schema hash: " ++ fingerprint ++ "\n" := by
    have hwords : "// " ++ "Schema hash: " = "// Schema hash: " := by decide
    rw [renderHeaderLine, if_neg (by simp), ← String.append_assoc, hwords]
  have hlines : m.header.map renderHeaderLine
      = ["// Generated by cms-typegen. Do not edit.\n",
        "// Schema hash: " ++ fingerprint ++ "\n"] := by
    rw [h, moduleHeader, List.map_cons, List.map_singleton, hfirst, hsecond]
  rw [Module.headerText, hlines, renderGroup_pair]
  rfl

theorem exists_typesModule_render (schema : Schema) (routes : RouteSet)
    (fingerprint : String) :
    ∃ rest, (typesModule schema routes fingerprint).render
      = fingerprintComment fingerprint ++ rest := by
  have hcomment : (typesModule schema routes fingerprint).headerText
      = fingerprintComment fingerprint :=
    headerText_of_header rfl
  rw [← hcomment]
  refine Module.exists_render_eq ⟨'e', ?_, by decide⟩
  obtain ⟨lines, hlines⟩ : ∃ lines,
      SharedTypes.text = "export type JsonValue =" ++ "\n" ++ Text.unlines lines :=
    ⟨_, rfl⟩
  have hshared : 'e' ∈ (Item.raw SharedTypes.text).render.toList := by
    have htext : SharedTypes.text.toList
        = [] ++ 'e' :: ("xport type JsonValue =\n" ++ Text.unlines lines).toList := by
      rw [hlines, String.toList_append, String.toList_append, String.toList_append]
      rfl
    rw [Item.render, closeLine, String.toList_append, String.toList_ofList, htext,
      Source.trimEnd_append_cons (by decide)]
    simp
  simp [typesModule, Text.concat, hshared]

theorem exists_clientModule_render (schema : Schema) (routes : RouteSet)
    (types : Module) (settings : Settings) (fingerprint : String) :
    ∃ rest, (clientModule schema routes types settings fingerprint).render
      = fingerprintComment fingerprint ++ rest := by
  have hcomment : (clientModule schema routes types settings fingerprint).headerText
      = fingerprintComment fingerprint :=
    headerText_of_header rfl
  rw [← hcomment]
  refine Module.exists_render_eq ⟨'i', ?_, by decide⟩
  have himport : ∀ i : Import, 'i' ∈ i.render.toList := by
    intro i
    unfold Import.render
    dsimp only
    split <;> simp
  simp [clientModule, renderGroup, Text.concat, himport]

/-! ## The record -/

namespace Command

open Json

/-- A field of a record. -/
def recorded? (text name : String) : Option String := do
  (← (← parse? text).map? Document.text?).find? name

theorem recorded?_metaText (fingerprint time : String) :
    recorded? (metaText fingerprint time) "schemaHash" = some fingerprint
      ∧ recorded? (metaText fingerprint time) "generatedAt" = some time := by
  have hparsed : parse? (metaText fingerprint time) = some (.object
      ([("generatedAt", time), ("schemaHash", fingerprint)].map Value.fieldMember)) :=
    Value.parse?_renderStringObject (by simp)
  simp [recorded?, hparsed, Document.map?, Value.fieldMember, Document.text?,
    decodeString?_printedUnits, Keyed.ofList, Keyed.find?_insert]

end Command

end TypedContent
