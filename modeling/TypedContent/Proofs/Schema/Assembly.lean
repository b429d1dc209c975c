import TypedContent.Proofs.Lists
import TypedContent.Schema.Assemble

/-!
# The order of declarations

A schema does not depend on the order in which its entities and their fields
are declared. The fields of an entity are put in the order of their names
first (`DeclaredEntity.sorted`); lists of declarations that agree up to that
and up to their own order assemble to the same schema
(`Schema.assemble_eq_of_perm`).
-/

namespace TypedContent

namespace DeclaredEntity

/-- The declaration with its fields in the order of their names. -/
def sorted (e : DeclaredEntity) : DeclaredEntity :=
  { e with fields := sortByKey DeclaredField.name e.fields }

theorem assemble_sorted (known : Known) (filter : Filter) (kind : EntityKind)
    (e : DeclaredEntity) :
    e.sorted.assemble known filter kind = e.assemble known filter kind := by
  have hkept : e.sorted.keptFields filter = e.keptFields filter := by
    simp only [keptFields, sorted, sortByKey_sortByKey]
  simp only [assemble, hkept]
  rfl

/-- Declarations that list the same fields under distinct names. -/
theorem sorted_eq_of_perm {e e' : DeclaredEntity} (huid : e.uid = e'.uid)
    (hkind : e.kind = e'.kind) (hfields : e.fields.Perm e'.fields)
    (hnodup : (e.fields.map DeclaredField.name).Nodup) :
    e.sorted = e'.sorted := by
  simp only [sorted, huid, hkind, sortByKey_eq_of_perm hfields hnodup]

end DeclaredEntity

namespace Schema

open DeclaredEntity

variable {components components' entities entities' : List DeclaredEntity}
  (filter : Filter)

theorem assemble_map_sorted :
    assemble (components.map sorted) (entities.map sorted) filter
      = assemble components entities filter := by
  have huid : ∀ e : DeclaredEntity, e.sorted.uid = e.uid := fun _ => rfl
  have hkept : (entities.map sorted).filter (fun e => filter.allows e.uid)
      = (entities.filter fun e => filter.allows e.uid).map sorted := by
    rw [List.filter_map]
    rfl
  have huids : ∀ es : List DeclaredEntity,
      (es.map sorted).map DeclaredEntity.uid = es.map DeclaredEntity.uid := by
    intro es
    rw [List.map_map]
    rfl
  simp only [assemble, hkept, sortByKey_map huid, huids, List.map_map,
    Function.comp_def, assemble_sorted]
  rfl

/-- Declarations in another order, with their fields in another order. -/
theorem assemble_eq_of_perm
    (hcomponents : (components.map sorted).Perm (components'.map sorted))
    (hentities : (entities.map sorted).Perm (entities'.map sorted))
    (hnodup : (components.map DeclaredEntity.uid).Nodup)
    (hnodup' : (entities.map DeclaredEntity.uid).Nodup) :
    assemble components entities filter = assemble components' entities' filter := by
  have huids : ∀ es : List DeclaredEntity,
      (es.map sorted).map DeclaredEntity.uid = es.map DeclaredEntity.uid := by
    intro es
    rw [List.map_map]
    rfl
  have hcomponents_nodup : ((components.map sorted).map DeclaredEntity.uid).Nodup := by
    rwa [huids]
  have hentities_nodup : ((entities.map sorted).map DeclaredEntity.uid).Nodup := by
    rwa [huids]
  have hkept :
      (((entities.map sorted).filter fun e => filter.allows e.uid).map
        DeclaredEntity.uid).Nodup :=
    (List.filter_sublist.map DeclaredEntity.uid).nodup hentities_nodup
  have hcomponents_sorted := sortByKey_eq_of_perm hcomponents hcomponents_nodup
  have hperm : ((entities.map sorted).filter fun e => filter.allows e.uid).Perm
      ((entities'.map sorted).filter fun e => filter.allows e.uid) := hentities.filter _
  have hentities_sorted := sortByKey_eq_of_perm hperm hkept
  have hsorted : assemble (components.map sorted) (entities.map sorted) filter
      = assemble (components'.map sorted) (entities'.map sorted) filter := by
    simp only [assemble, hcomponents_sorted, hentities_sorted]
  rwa [assemble_map_sorted, assemble_map_sorted] at hsorted

end Schema

end TypedContent
