import TypedContent.Files.Tree

/-!
# Places in a tree of files

What a program can see of a tree is which places hold a directory and which
a file, and the texts of the files (`Node.kindAt?`). Putting a file into a
directory changes this at one place (`kindAt?_put_file`). Putting a
directory where nothing was changes nothing that was there and adds no file
(`kindAt?_put_directory`, `kindAt?_put_directory_file`), also when further
directories are made on the way.
-/

namespace TypedContent

open Option

namespace Files

inductive Kind where
  | directory
  | file (text : String)
deriving DecidableEq, Repr

def Kind.text? : Kind → Option String
  | directory => none
  | file text => some text

namespace Node

variable {place new : List String} {root : Node}

def kind : Node → Kind
  | file text => .file text
  | directory _ => .directory

/-- The kind of what stands at the end of a list of names. -/
def kindAt? (place : List String) (root : Node) : Option Kind :=
  (root.find? place).map kind

@[simp] theorem kindAt?_nil (root : Node) : root.kindAt? [] = some root.kind := rfl

@[simp] theorem kindAt?_file_cons (text name : String) (place : List String) :
    (file text).kindAt? (name :: place) = none := rfl

@[simp] theorem kindAt?_directory_cons (entries : List (String × Node))
    (name : String) (place : List String) :
    (directory entries).kindAt? (name :: place)
      = (entries.lookup name).bind (kindAt? place) := by
  rw [kindAt?, find?]
  cases entries.lookup name <;> rfl

theorem exists_entries {root : Node} (h : root.kindAt? [] = some .directory) :
    ∃ entries, root = directory entries := by
  cases root with
  | file text => cases h
  | directory entries => exact ⟨entries, rfl⟩

/-- A directory is in a directory, or is the root. -/
theorem kindAt?_dropLast (h : root.kindAt? place = some .directory) :
    root.kindAt? place.dropLast = some .directory := by
  induction place generalizing root with
  | nil => exact h
  | cons name rest ih =>
    cases root with
    | file text => cases h
    | directory entries =>
      cases rest with
      | nil => rfl
      | cons next rest =>
        rw [kindAt?_directory_cons] at h
        obtain ⟨node, hnode, hbelow⟩ := bind_eq_some_iff.1 h
        rw [List.dropLast_cons_cons, kindAt?_directory_cons, hnode]
        exact ih hbelow

/-! ## Putting files and directories -/

theorem kindAt?_cons_of_ne_directory {node : Node} (h : node.kind ≠ .directory)
    (name : String) (place : List String) :
    node.kindAt? (name :: place) = none := by
  cases node with
  | file text => rfl
  | directory entries => exact absurd rfl h

theorem kindAt?_put_file {parent : List String} {name : String}
    (hparent : root.kindAt? parent = some .directory)
    (hfree : root.kindAt? (parent ++ [name]) ≠ some .directory) (text : String)
    (place : List String) :
    (put (.file text) (parent ++ [name]) root).kindAt? place
      = if place = parent ++ [name] then some (.file text) else root.kindAt? place := by
  induction parent generalizing root place with
  | nil =>
    obtain ⟨entries, rfl⟩ := exists_entries hparent
    rw [List.nil_append, put, put]
    rw [List.nil_append, kindAt?_directory_cons] at hfree
    cases place with
    | nil => rfl
    | cons first rest =>
      rw [kindAt?_directory_cons, kindAt?_directory_cons, lookup_insertEntry]
      by_cases hfirst : first = name
      · subst hfirst
        cases rest with
        | nil => simp [kind]
        | cons second rest =>
          -- nothing is below a file, and nothing was below the place of the
          -- file
          cases hnode : entries.lookup first with
          | none => simp
          | some node =>
            have hkind : node.kind ≠ .directory := by simpa [hnode] using hfree
            simp [kindAt?_cons_of_ne_directory hkind]
      · simp [hfirst]
  | cons directory parent ih =>
    cases root with
    | file old => cases hparent
    | directory entries =>
      rw [kindAt?_directory_cons] at hparent
      obtain ⟨node, hnode, hbelow⟩ := bind_eq_some_iff.1 hparent
      rw [List.cons_append, kindAt?_directory_cons, hnode, bind_some] at hfree
      cases place with
      | nil => rfl
      | cons first rest =>
        rw [List.cons_append, put, kindAt?_directory_cons, kindAt?_directory_cons,
          lookup_insertEntry, hnode]
        by_cases hfirst : first = directory
        · subst hfirst
          simp [hnode, ih hbelow hfree]
        · simp [hfirst]

/-- A directory is put where nothing was. -/
theorem kindAt?_put_directory (hnew : root.kindAt? new = none) {kind : Kind}
    (h : root.kindAt? place = some kind) :
    (put (.directory []) new root).kindAt? place = some kind := by
  induction new generalizing root place with
  | nil => cases hnew
  | cons name new ih =>
    cases root with
    | file text => exact h
    | directory entries =>
      cases place with
      | nil => exact h
      | cons first rest =>
        rw [kindAt?_directory_cons] at h hnew
        rw [put, kindAt?_directory_cons, lookup_insertEntry]
        by_cases hfirst : first = name
        · subst hfirst
          obtain ⟨node, hnode, h⟩ := bind_eq_some_iff.1 h
          rw [hnode, bind_some] at hnew
          simpa [hnode] using ih hnew h
        · simpa [hfirst] using h

theorem kindAt?_put_directory_file (hnew : root.kindAt? new = none) {text : String}
    (h : (put (.directory []) new root).kindAt? place = some (.file text)) :
    root.kindAt? place = some (.file text) := by
  induction new generalizing root place with
  | nil => cases hnew
  | cons name new ih =>
    cases root with
    | file old => exact h
    | directory entries =>
      cases place with
      | nil => exact h
      | cons first rest =>
        rw [kindAt?_directory_cons] at hnew ⊢
        rw [put, kindAt?_directory_cons, lookup_insertEntry] at h
        by_cases hfirst : first = name
        · subst hfirst
          rw [if_pos rfl, bind_some] at h
          cases hnode : entries.lookup first with
          | none =>
            -- all that is below the new directory has just been made
            have hempty : (directory []).kindAt? rest ≠ some (.file text) := by
              cases rest <;> simp [kind]
            rw [hnode, getD_none] at h
            cases new with
            | nil => exact absurd h hempty
            | cons second new => exact absurd (ih rfl h) hempty
          | some node =>
            rw [hnode, bind_some] at hnew
            rw [hnode, getD_some] at h
            exact ih hnew h
        · simpa [hfirst] using h

end Node

end Files

end TypedContent
