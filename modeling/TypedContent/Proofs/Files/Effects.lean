import TypedContent.Files.Access
import TypedContent.Proofs.Files.Places
import TypedContent.Proofs.Naming.Characters

/-!
# What access to files does

A program sees files through paths. `View` says what there is to see in a
state: the files that paths lead to, and the bytes in them. `Access.Laws` is
what access is taken to do with them. A workspace that is kept as a state
satisfies the laws (`workspace_laws`): writing puts a text at one place, in
a directory that is there (`write_stores`), and making directories adds
directories only, also when it fails (`makeDirectories_adds`).
-/

namespace TypedContent

open List

variable {place place' : List String}

theorem exists_of_bind_eq_ok {ε α β : Type} {x : Except ε α} {f : α → Except ε β}
    {b : β} (h : x.bind f = .ok b) :
    ∃ a, x = .ok a ∧ f a = .ok b := by
  cases x with
  | error e => cases h
  | ok a => exact ⟨a, rfl, h⟩

namespace Files

variable {path : String}

/-! ## Laws -/

/-- How a state is seen. Several paths may lead to one file, and the bytes
of a file need not be a text. -/
structure View (σ : Type) where
  File : Type
  /-- The file that a path leads to. -/
  file? : σ → String → Option File
  /-- The contents of a file. -/
  bytes? : σ → File → Option ByteArray

/-- The contents of the file at a path. -/
def View.contents? {σ : Type} (v : View σ) (w : σ) (path : String) : Option ByteArray :=
  (v.file? w path).bind (v.bytes? w)

/-- What access to files is taken to do. Anything may fail, for whatever
reason, and what a text leaves behind that could not be written in full is
left open. -/
structure Access.Laws {σ : Type} (files : Access (StateM σ)) (v : View σ) : Prop where
  read : ∀ path w, ((files.read path).run w).2 = w
  isThere : ∀ path w, ((files.isThere path).run w).2 = w
  /-- Making directories changes no file, also when it fails. -/
  makeDirectories :
    ∀ path w f, v.bytes? ((files.makeDirectories path).run w).2 f = v.bytes? w f
  /-- A text that has been written is in the file that its path leads to,
  and no other file has changed. -/
  write : ∀ {path text w w'}, (files.write path text).run w = (.ok (), w') →
    ∃ f, v.file? w' path = some f ∧ v.bytes? w' f = some text.toUTF8
      ∧ ∀ other, other ≠ f → v.bytes? w' other = v.bytes? w other
  /-- Paths keep leading where they led. -/
  leads : ∀ {path text w w'}, (files.write path text).run w = (.ok (), w') →
    ∀ other f, v.file? w other = some f → v.file? w' other = some f

namespace Workspace

/-! ## Following paths -/

section Follow

variable {root : Node}

theorem follow_append (place xs ys : List String) :
    follow root place (xs ++ ys) = (follow root place xs).bind (follow root · ys) := by
  fun_induction follow root place xs with
  | case1 place => rfl
  | case2 place step rest hnone => simp [follow, hnone, Except.bind]
  | case3 place step rest text hfile => simp [follow, hfile, Except.bind]
  | case4 place rest entries hdirectory ih => simp [follow, hdirectory, ih]
  | case5 place rest entries hdirectory hstep ih => simp [follow, hdirectory, ih]
  | case6 place step rest entries hdirectory hself hparent hlong =>
    simp [follow, hdirectory, hself, hparent, hlong, Except.bind]
  | case7 place step rest entries hdirectory hself hparent hlong ih =>
    simp [follow, hdirectory, hself, hparent, hlong, ih]

/-- Steps lead on from directories only. -/
theorem kindAt?_of_follow_cons {rest : List String} {step : String}
    (h : follow root place (step :: rest) = .ok place') :
    root.kindAt? place = some .directory := by
  rw [follow] at h
  rw [Node.kindAt?]
  split at h
  · cases h
  · cases h
  · rename_i entries hfind
    rw [hfind]
    rfl

theorem follow_cons_of_directory (h : root.kindAt? place = some .directory)
    (step : String) (rest : List String) :
    follow root place (step :: rest)
      = if step = "." then follow root place rest
        else if step = ".." then follow root place.dropLast rest
        else if nameLimit < Text.byteLength step.toList then .error .nameTooLong
        else follow root (place ++ [step]) rest := by
  rw [Node.kindAt?, Option.map_eq_some_iff] at h
  obtain ⟨node, hfind, hkind⟩ := h
  cases node with
  | file text => cases hkind
  | directory entries => rw [follow, hfind]

/-- Steps lead to the same place in any tree that has all the
directories. -/
theorem follow_mono {root' : Node}
    (hdirectories : ∀ place, root.kindAt? place = some .directory →
      root'.kindAt? place = some .directory)
    {steps : List String} (h : follow root place steps = .ok place') :
    follow root' place steps = .ok place' := by
  induction steps generalizing place with
  | nil => exact h
  | cons step rest ih =>
    have hdirectory := kindAt?_of_follow_cons h
    rw [follow_cons_of_directory hdirectory] at h
    rw [follow_cons_of_directory (hdirectories place hdirectory)]
    by_cases hself : step = "."
    · rw [if_pos hself] at h ⊢
      exact ih h
    rw [if_neg hself] at h ⊢
    by_cases hparent : step = ".."
    · rw [if_pos hparent] at h ⊢
      exact ih h
    rw [if_neg hparent] at h ⊢
    by_cases hlong : nameLimit < Text.byteLength step.toList
    · rw [if_pos hlong] at h
      cases h
    · rw [if_neg hlong] at h ⊢
      exact ih h

/-- Steps lead to a directory, or to a name in one. -/
theorem kindAt?_of_follow {steps : List String} (hsteps : steps ≠ [])
    (h : follow root place steps = .ok place') :
    root.kindAt? place' = some .directory
      ∨ ∃ parent name, place' = parent ++ [name]
        ∧ root.kindAt? parent = some .directory := by
  rw [← dropLast_concat_getLast hsteps, follow_append] at h
  obtain ⟨directory, -, hlast⟩ := exists_of_bind_eq_ok h
  have hkind := kindAt?_of_follow_cons hlast
  rw [follow_cons_of_directory hkind] at hlast
  split at hlast
  · exact .inl (Except.ok.inj hlast ▸ hkind)
  · split at hlast
    · exact .inl (Except.ok.inj hlast ▸ Node.kindAt?_dropLast hkind)
    · split at hlast
      · cases hlast
      · exact .inr ⟨directory, _, (Except.ok.inj hlast).symm, hkind⟩

end Follow

theorem locate_eq_ok {steps : List String} {w : Workspace} :
    w.locate path steps = .ok place
      ↔ path ≠ "" ∧ Text.byteLength path.toList ≤ pathLimit
        ∧ follow w.root (if startsWithSlash path then [] else w.place) steps
          = .ok place := by
  unfold locate
  split
  · rename_i hempty
    simp [hempty]
  · rename_i hpath
    split
    · rename_i hlong
      simp [Nat.not_le.2 hlong]
    · rename_i hshort
      simp [hpath, Nat.not_lt.1 hshort]

theorem steps_ne_nil (h : path ≠ "") : steps path ≠ [] := by
  have hchars : path.toList ≠ [] := fun hnil => h (String.toList_eq_nil_iff.1 hnil)
  rw [steps, endsInSlash, getLast?_eq_some_getLast hchars]
  split
  · exact append_ne_nil_of_right_ne_nil _ (by simp)
  · rename_i hslash
    rw [append_nil, names, ne_eq, map_eq_nil_iff]
    intro hpieces
    have hnone := Text.flatten_pieces (· == '/') path.toList
    rw [hpieces, eq_comm, flatten_nil, filter_eq_nil_iff] at hnone
    exact hnone _ (getLast_mem hchars) (by simpa using hslash)

/-- A path leads to a directory, or to a name in one. -/
theorem kindAt?_of_locate {w : Workspace} (h : w.locate path (steps path) = .ok place) :
    w.root.kindAt? place = some .directory
      ∨ ∃ parent name, place = parent ++ [name]
        ∧ w.root.kindAt? parent = some .directory := by
  obtain ⟨hpath, -, hfollow⟩ := locate_eq_ok.1 h
  exact kindAt?_of_follow (steps_ne_nil hpath) hfollow

/-! ## Writing a file -/

/-- The text of the file at a place. -/
def textAt? (w : Workspace) (place : List String) : Option String :=
  (w.root.kindAt? place).bind Kind.text?

theorem write_eq_ok {w w' : Workspace} {text : String} :
    w.write path text = .ok w'
      ↔ ∃ place, w.locate path (steps path) = .ok place
        ∧ w.root.kindAt? place ≠ some .directory
        ∧ w' = w.put (.file text) place := by
  unfold write
  cases hlocate : w.locate path (steps path) with
  | error e => simp [bind, Except.bind]
  | ok place =>
    cases hfind : w.root.find? place with
    | none => simp [bind, Except.bind, pure, Except.pure, Node.kindAt?, hfind, eq_comm]
    | some node =>
      cases node <;> simp [bind, Except.bind, throw, throwThe, MonadExceptOf.throw,
        pure, Except.pure, Node.kindAt?, hfind, Node.kind, eq_comm]

/-- A file with the given text has been put in place, and nothing else has
changed. -/
structure Stores (target : List String) (text : String) (w w' : Workspace) : Prop where
  place : w'.place = w.place
  free : w.root.kindAt? target ≠ some .directory
  kinds : ∀ place, w'.root.kindAt? place = if place = target then some (.file text)
    else w.root.kindAt? place

theorem write_stores {w w' : Workspace} {text : String} (h : w.write path text = .ok w') :
    ∃ target, w.locate path (steps path) = .ok target ∧ Stores target text w w' := by
  obtain ⟨target, hlocate, hfree, rfl⟩ := write_eq_ok.1 h
  obtain ⟨parent, name, rfl, hparent⟩ := (kindAt?_of_locate hlocate).resolve_left hfree
  exact ⟨_, hlocate, rfl, hfree, Node.kindAt?_put_file hparent hfree text⟩

namespace Stores

variable {target : List String} {text : String} {w w' : Workspace}
  (h : Stores target text w w')

include h

theorem textAt?_eq (place : List String) :
    w'.textAt? place = if place = target then some text else w.textAt? place := by
  rw [textAt?, h.kinds]
  split <;> rfl

/-- Paths lead to the same places, since no directory goes. -/
theorem locate {steps : List String} (hlocate : w.locate path steps = .ok place) :
    w'.locate path steps = .ok place := by
  obtain ⟨hpath, hshort, hfollow⟩ := locate_eq_ok.1 hlocate
  refine locate_eq_ok.2 ⟨hpath, hshort,
    h.place ▸ follow_mono (fun place hplace => ?_) hfollow⟩
  have hne : place ≠ target := fun heq => h.free (heq ▸ hplace)
  rw [h.kinds, if_neg hne, hplace]

end Stores

/-! ## Making directories -/

theorem makeDirectory_eq_ok {steps : List String} {w w' : Workspace} :
    w.makeDirectory path steps = .ok w'
      ↔ ∃ place, w.locate path steps = .ok place ∧ w.root.kindAt? place = none
        ∧ w' = w.put (.directory []) place := by
  unfold makeDirectory
  cases hlocate : w.locate path steps with
  | error e => simp [bind, Except.bind]
  | ok place =>
    cases hfind : w.root.find? place with
    | none => simp [bind, Except.bind, pure, Except.pure, Node.kindAt?, hfind, eq_comm]
    | some node => simp [bind, Except.bind, throw, throwThe, MonadExceptOf.throw,
      Node.kindAt?, hfind]

/-- Directories have been added, and nothing else has changed. -/
structure AddsDirectories (w w' : Workspace) : Prop where
  place : w'.place = w.place
  kept : ∀ place kind, w.root.kindAt? place = some kind →
    w'.root.kindAt? place = some kind
  files : ∀ place text, w'.root.kindAt? place = some (.file text) →
    w.root.kindAt? place = some (.file text)

namespace AddsDirectories

variable {w w' w'' : Workspace}

theorem refl (w : Workspace) : w.AddsDirectories w :=
  ⟨rfl, fun _ _ h => h, fun _ _ h => h⟩

theorem trans (h : w.AddsDirectories w') (h' : w'.AddsDirectories w'') :
    w.AddsDirectories w'' where
  place := h'.place.trans h.place
  kept := fun place kind hplace => h'.kept place kind (h.kept place kind hplace)
  files := fun place text hplace => h.files place text (h'.files place text hplace)

theorem textAt?_eq (h : w.AddsDirectories w') (place : List String) :
    w'.textAt? place = w.textAt? place := by
  unfold textAt?
  cases hplace : w.root.kindAt? place with
  | some kind => rw [h.kept place kind hplace]
  | none =>
    cases hplace' : w'.root.kindAt? place with
    | none => rfl
    | some kind =>
      cases kind with
      | directory => rfl
      | file text =>
        rw [h.files place text hplace'] at hplace
        cases hplace

end AddsDirectories

theorem makeDirectory_adds {steps : List String} {w w' : Workspace}
    (h : w.makeDirectory path steps = .ok w') : w.AddsDirectories w' := by
  obtain ⟨place, -, hnone, rfl⟩ := makeDirectory_eq_ok.1 h
  exact ⟨rfl, fun _ _ hkind => Node.kindAt?_put_directory hnone hkind,
    fun _ _ hfile => Node.kindAt?_put_directory_file hnone hfile⟩

theorem makeAll_adds (path : String) (directories : List (List String)) (w : Workspace) :
    w.AddsDirectories (makeAll path directories w).2 := by
  induction directories generalizing w with
  | nil => exact .refl w
  | cons steps shorter ih =>
    rw [makeAll]
    split
    · rename_i made hmade
      exact makeDirectory_adds hmade
    · cases hshorter : makeAll path shorter w with
      | mk result made =>
        have hadds : w.AddsDirectories made := by simpa [hshorter] using ih w
        cases result with
        | error e => exact hadds
        | ok _ =>
          dsimp only
          split
          · rename_i made' hmade
            exact hadds.trans (makeDirectory_adds hmade)
          · split <;> exact hadds
    · split <;> exact .refl w

/-- Directories have been added, also where it failed. -/
theorem makeDirectories_adds {w made : Workspace} {result : Except FileError Unit}
    (h : w.makeDirectories path = (result, made)) : w.AddsDirectories made := by
  have hadds := makeAll_adds path (names path :: ancestors (names path)) w
  rw [← makeDirectories, h] at hadds
  exact hadds

end Workspace

/-! ## The laws of a workspace -/

/-- In a workspace files are places, whether or not something stands
there. -/
def workspaceView : View Workspace where
  File := List String
  file? w path := (w.locate path (steps path)).toOption
  bytes? w place := (w.textAt? place).map String.toUTF8

theorem write_of_run {w w' : Workspace} {text : String}
    (h : (workspaceAccess.write path text).run w = (.ok (), w')) :
    w.write path text = .ok w' := by
  simp only [workspaceAccess, StateT.run_bind, StateT.run_get, pure_bind] at h
  cases hwrite : w.write path text with
  | error e => rw [hwrite] at h; cases h
  | ok after => rw [hwrite] at h; cases h; rfl

theorem workspace_laws : workspaceAccess.Laws workspaceView where
  read _ _ := rfl
  isThere _ _ := rfl
  makeDirectories path w place := by
    have hadds : w.AddsDirectories (w.makeDirectories path).2 :=
      Workspace.makeDirectories_adds rfl
    exact congrArg (Option.map String.toUTF8) (hadds.textAt?_eq place)
  write := by
    intro path text w w' h
    obtain ⟨target, hlocate, hstores⟩ := Workspace.write_stores (write_of_run h)
    refine ⟨target, congrArg Except.toOption (hstores.locate hlocate), ?_,
      fun place hplace => ?_⟩
    · exact congrArg (Option.map String.toUTF8)
        ((hstores.textAt?_eq target).trans (if_pos rfl))
    · exact congrArg (Option.map String.toUTF8)
        ((hstores.textAt?_eq place).trans (if_neg hplace))
  leads := by
    intro path text w w' h other place hplace
    obtain ⟨target, -, hstores⟩ := Workspace.write_stores (write_of_run h)
    change (w.locate other (steps other)).toOption = some place at hplace
    cases hlocate : w.locate other (steps other) with
    | error e => rw [hlocate] at hplace; cases hplace
    | ok led =>
      rw [hlocate] at hplace
      exact (congrArg Except.toOption (hstores.locate hlocate)).trans hplace

end Files

end TypedContent
