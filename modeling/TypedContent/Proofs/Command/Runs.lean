import TypedContent.Proofs.Command.Records
import TypedContent.Proofs.Files.Effects

/-!
# Runs write all or nothing

A run reads all its inputs and generates the modules before it writes. This
holds for any access to files that follows the laws of `Files.Access.Laws`,
so the files may be of any kind, and any of them may refuse to be read or
written. `Requires` says of a program that it changes nothing and that it
succeeds only where something holds, and it goes through sequences of
programs, so what a run has read is collected part by part
(`requires_prepare`). After that nothing can fail but the output directory
and the outputs (`exitCode_of_writing`).
-/

namespace TypedContent

namespace Command

open List Files

variable {σ α β : Type} {f : α → ExceptT Error (StateM σ) β} {r : Request}
  {g : Generated} {x : ExceptT Error (StateM σ) α}

/-! ## Outcomes -/

/-- What a program gives back, and the state it leaves. -/
def outcome (x : ExceptT Error (StateM σ) α) (w : σ) : Except Error α × σ :=
  x.run.run w

theorem outcome_bind (x : ExceptT Error (StateM σ) α)
    (f : α → ExceptT Error (StateM σ) β) (w : σ) :
    outcome (x >>= f) w
      = match outcome x w with
        | (.ok a, w') => outcome (f a) w'
        | (.error e, w') => (.error e, w') := by
  simp only [outcome, ExceptT.run_bind, StateT.run_bind]
  change (match x.run.run w with | (r, w') => _) = _
  rcases x.run.run w with ⟨result, w'⟩
  cases result <;> rfl

theorem exists_of_outcome_bind
    {w after : σ} {b : β} (h : outcome (x >>= f) w = (.ok b, after)) :
    ∃ a w', outcome x w = (.ok a, w') ∧ outcome (f a) w' = (.ok b, after) := by
  rw [outcome_bind] at h
  rcases hx : outcome x w with ⟨e | a, w'⟩
  · rw [hx] at h
    cases h
  · rw [hx] at h
    exact ⟨a, w', rfl, h⟩

theorem outcome_lift (result : Except Error α) (w : σ) :
    outcome (ExceptT.mk (pure result)) w = (result, w) :=
  rfl

/-- An error gets the path, and nothing else happens. -/
theorem outcome_naming (path : String) (action : StateM σ (Except FileError α)) (w : σ) :
    outcome (Access.naming path action) w
      = ((action.run w).1.mapError (.file path), (action.run w).2) :=
  rfl

theorem run_of_outcome_naming {path : String} {action : StateM σ (Except FileError α)}
    {w w' : σ} {a : α} (h : outcome (Access.naming path action) w = (.ok a, w')) :
    action.run w = (.ok a, w') := by
  rw [outcome_naming] at h
  rcases hrun : action.run w with ⟨cause | b, after⟩
  · rw [hrun] at h
    cases h
  · rw [hrun] at h
    cases h
    rfl

/-! ## Reading -/

/-- A program that changes nothing and succeeds only where something
holds. -/
structure Requires (P : σ → Prop) (x : ExceptT Error (StateM σ) α) : Prop where
  unchanged : ∀ w, (outcome x w).2 = w
  holds : ∀ w a, (outcome x w).1 = .ok a → P w

namespace Requires

variable {P Q : σ → Prop}

theorem imp (hx : Requires P x) (h : ∀ w, P w → Q w) : Requires Q x :=
  ⟨hx.unchanged, fun w a ha => h w (hx.holds w a ha)⟩

theorem bind (hx : Requires P x)
    (hf : ∀ a, Requires Q (f a)) : Requires (fun w => P w ∧ Q w) (x >>= f) := by
  have hcases : ∀ w, (∃ e, outcome (x >>= f) w = (.error e, w))
      ∨ ∃ a, P w ∧ outcome (x >>= f) w = outcome (f a) w := by
    intro w
    rw [outcome_bind]
    cases houtcome : outcome x w with
    | mk result w' =>
      obtain rfl : w' = w := by simpa [houtcome] using hx.unchanged w
      cases result with
      | error e => exact .inl ⟨e, rfl⟩
      | ok a => exact .inr ⟨a, hx.holds _ a (by rw [houtcome]), rfl⟩
  constructor
  · intro w
    rcases hcases w with ⟨e, h⟩ | ⟨a, -, h⟩
    · rw [h]
    · rw [h, (hf a).unchanged]
  · intro w b hb
    rcases hcases w with ⟨e, h⟩ | ⟨a, hP, h⟩
    · rw [h] at hb
      cases hb
    · rw [h] at hb
      exact ⟨hP, (hf a).holds w b hb⟩

theorem pure (a : α) : Requires (fun _ : σ => True) (pure a) :=
  ⟨fun _ => rfl, fun _ _ _ => trivial⟩

theorem lift (result : Except Error α) :
    Requires (fun _ : σ => True) (ExceptT.mk (Pure.pure result)) :=
  ⟨fun _ => rfl, fun _ _ _ => trivial⟩

theorem decoded (e : Error) (result : Option α) :
    Requires (fun _ : σ => True) (Command.decoded e result) := by
  cases result <;> exact ⟨fun _ => rfl, fun _ _ _ => trivial⟩

end Requires

section Reading

variable {files : Access (StateM σ)} {v : View σ} (laws : files.Laws v)

/-- A file that can be read. -/
def Readable (files : Access (StateM σ)) (w : σ) (path : String) : Prop :=
  ∃ text, ((files.read path).run w).1 = .ok text

include laws

theorem requires_text (path : String) :
    Requires (Readable files · path) (files.text path) := by
  refine ⟨laws.read path, fun w text h => ⟨text, ?_⟩⟩
  have hrun : outcome (files.text path) w
      = (.ok text, (outcome (files.text path) w).2) := Prod.ext h rfl
  exact congrArg Prod.fst (run_of_outcome_naming hrun)

/-- A file is read only if it is there. -/
theorem requires_textIfThere (path : String) :
    Requires (fun w => ((files.isThere path).run w).1 = true → Readable files w path)
      (files.textIfThere path) := by
  have hrun : ∀ w, outcome (files.textIfThere path) w
      = outcome (if ((files.isThere path).run w).1 then files.text path
        else pure "") w := by
    intro w
    have hstate := laws.isThere path w
    rw [Access.textIfThere, outcome_bind]
    change outcome (if ((files.isThere path).run w).1 then files.text path else pure "")
      ((files.isThere path).run w).2 = _
    rw [hstate]
  refine ⟨fun w => ?_, fun w text h hthere => ?_⟩
  · rw [hrun]
    split
    · exact (requires_text laws path).unchanged w
    · rfl
  · rw [hrun, if_pos hthere] at h
    exact (requires_text laws path).holds w text h

/-- Reading and decoding. -/
theorem requires_decodedText (path : String) (e : Error) (decode : String → Option α) :
    Requires (Readable files · path)
      (files.text path >>= fun text => decoded e (decode text)) :=
  ((requires_text laws path).bind fun _ => .decoded e _).imp fun _ h => h.1

omit laws in
/-- Nothing is read where no path is given. -/
theorem requires_given (x : Option String → ExceptT Error (StateM σ) α)
    (hnone : ∃ a, x none = Pure.pure a)
    (hsome : ∀ path, Requires (Readable files · path) (x (some path)))
    (path : Option String) :
    Requires (fun w => ∀ p ∈ path, Readable files w p) (x path) := by
  cases path with
  | none =>
    obtain ⟨a, ha⟩ := hnone
    exact ha ▸ (Requires.pure a).imp fun _ _ _ hp => nomatch hp
  | some path => exact (hsome path).imp fun _ h p hp => Option.some.inj hp ▸ h

theorem requires_readSettings (path : Option String) :
    Requires (fun w => ∀ p ∈ path, Readable files w p) (readSettings files path) :=
  requires_given (readSettings files) ⟨_, rfl⟩
    (fun path => requires_decodedText laws path _ _) path

theorem requires_readListedRoutes (path : Option String) :
    Requires (fun w => ∀ p ∈ path, Readable files w p) (readListedRoutes files path) :=
  requires_given (readListedRoutes files) ⟨_, rfl⟩
    (fun path => requires_decodedText laws path _ _) path

theorem requires_readIfGiven (path : Option String) :
    Requires (fun w => ∀ p ∈ path, Readable files w p) (readIfGiven files path) :=
  requires_given (readIfGiven files) ⟨_, rfl⟩
    (fun path => ((requires_text laws path).bind fun _ => .pure _).imp fun _ h => h.1)
      path

theorem requires_readModules (types : Option String) (paths : List String) :
    Requires (fun w => ∀ p ∈ paths, Readable files w p)
      (readModules files types paths) := by
  induction paths with
  | nil => exact (Requires.pure _).imp fun _ _ _ hp => nomatch hp
  | cons path paths ih =>
    refine ((requires_text laws path).bind fun _ => (Requires.lift _).bind fun _ =>
      ih.bind fun _ => Requires.pure _).imp fun w h => forall_mem_cons.2 ⟨h.1, h.2.2.1⟩

theorem requires_readRoutes (r : Request) :
    Requires (fun w => ∀ p ∈ r.routes.toList ++ r.routeTypes.toList ++ r.routeModules,
      Readable files w p)
      (readRoutes files r) := by
  refine ((requires_readListedRoutes laws r.routes).bind fun _ =>
    (requires_readIfGiven laws r.routeTypes).bind fun types =>
    (requires_readModules laws types r.routeModules).bind fun _ =>
      Requires.pure _).imp fun w h => ?_
  obtain ⟨hroutes, htypes, hmodules, -⟩ := h
  simp only [mem_append, Option.mem_toList]
  rintro p ((hp | hp) | hp)
  · exact hroutes p hp
  · exact htypes p hp
  · exact hmodules p hp

omit laws

/-- The files that a schema is read from. Components may be missing. -/
def SchemaPlace.inputs (files : Access (StateM σ)) (w : σ) : SchemaPlace → List String
  | document file => [file]
  | declarations directory =>
    join directory contentTypesFile
      :: [join directory componentsFile].filter fun path => ((files.isThere path).run w).1

/-- The files that a run reads. -/
def Request.inputs (files : Access (StateM σ)) (w : σ) (r : Request) : List String :=
  r.config.toList ++ (r.routes.toList ++ r.routeTypes.toList ++ r.routeModules)
    ++ r.schema.inputs files w

include laws

theorem requires_readSchema (place : SchemaPlace) :
    Requires (fun w => ∀ p ∈ place.inputs files w, Readable files w p)
      (readSchema files place) := by
  cases place with
  | document file =>
    refine ((requires_text laws file).bind fun _ => (Requires.decoded _ _).bind fun _ =>
      Requires.pure _).imp fun w h => ?_
    exact forall_mem_singleton.2 h.1
  | declarations directory =>
    refine ((requires_text laws _).bind fun _ =>
      (requires_textIfThere laws _).bind fun _ =>
      Requires.pure _).imp fun w h => ?_
    obtain ⟨hcontent, hcomponents, -⟩ := h
    refine forall_mem_cons.2 ⟨hcontent, fun p hp => ?_⟩
    obtain ⟨hmem, hthere⟩ := mem_filter.1 hp
    obtain rfl := mem_singleton.1 hmem
    exact hcomponents hthere

/-- A run writes only if it has read all its inputs. -/
theorem requires_prepare (r : Request) :
    Requires (fun w => ∀ p ∈ r.inputs files w, Readable files w p) (prepare files r) := by
  refine ((requires_readSettings laws r.config).bind fun _ =>
    (requires_readRoutes laws r).bind fun _ =>
    (requires_readSchema laws r.schema).bind fun _ => Requires.lift _).imp fun w h => ?_
  obtain ⟨hsettings, hroutes, hschema, -⟩ := h
  rw [Request.inputs]
  intro p hp
  rcases mem_append.1 hp with hp | hp
  · rcases mem_append.1 hp with hp | hp
    · exact hsettings p (Option.mem_toList.1 hp)
    · exact hroutes p hp
  · exact hschema p hp

/-- What is generated is generated with the settings that were read. -/
theorem exists_of_prepare {w after : σ}
    (h : outcome (prepare files r) w = (.ok g, after)) :
    ∃ settings schema routes, outcome (readSettings files r.config) w = (.ok settings, w)
      ∧ g = TypedContent.generate schema routes settings := by
  obtain ⟨settings, w₁, hsettings, h⟩ := exists_of_outcome_bind h
  obtain ⟨descriptors, w₂, -, h⟩ := exists_of_outcome_bind h
  obtain ⟨source, w₃, -, h⟩ := exists_of_outcome_bind h
  have hunchanged : w₁ = w := by
    simpa [hsettings] using (requires_readSettings laws r.config).unchanged w
  rw [outcome_lift] at h
  obtain ⟨schema, -, hg⟩ := exists_of_bind_eq_ok (congrArg Prod.fst h)
  exact ⟨settings, schema, _, hunchanged ▸ hsettings, (Except.ok.inj hg).symm⟩

end Reading

/-! ## Writing -/

section Writing

variable {files : Access (StateM σ)} {path : String}
  {outs : List (String × String)} {w after : σ}

/-- Files that have all been written hold their texts, if their paths lead
to different files, and no other file has changed. -/
theorem writeAll_ok {v : View σ} (laws : files.Laws v)
    (h : outcome (writeAll files path outs) w = (.ok (), after)) :
    (∀ other f, v.file? w other = some f → v.file? after other = some f)
      ∧ (∀ f, (∀ o ∈ outs, v.file? after (join path o.1) ≠ some f) →
        v.bytes? after f = v.bytes? w f)
      ∧ ((outs.map fun o => v.file? after (join path o.1)).Nodup →
        ∀ o ∈ outs, v.contents? after (join path o.1) = some o.2.toUTF8) := by
  induction outs generalizing w with
  | nil =>
    obtain rfl : w = after := congrArg Prod.snd h
    exact ⟨fun _ _ h => h, fun _ _ => rfl, by simp⟩
  | cons out outs ih =>
    obtain ⟨name, text⟩ := out
    obtain ⟨_, w', hstore, h⟩ := exists_of_outcome_bind h
    obtain ⟨hleads, hframe, hcontents⟩ := ih h
    have hwrite : (files.write (join path name) text).run w = (.ok (), w') :=
      run_of_outcome_naming hstore
    obtain ⟨f, hfile, hbytes, hothers⟩ := laws.write hwrite
    have hafter : v.file? after (join path name) = some f := hleads _ f hfile
    refine ⟨fun other f' hother => hleads other f' (laws.leads hwrite other f' hother),
      fun f' hf' => ?_,
      fun hnodup => ?_⟩
    · obtain ⟨hne, hf'⟩ := forall_mem_cons.1 hf'
      rw [hframe f' hf', hothers f' fun heq => hne (heq ▸ hafter)]
    · obtain ⟨hfresh, hnodup⟩ := nodup_cons.1 hnodup
      refine forall_mem_cons.2 ⟨?_, hcontents hnodup⟩
      rw [View.contents?, hafter, Option.bind_some, ← hbytes]
      exact hframe f fun o ho heq => hfresh (mem_map.2 ⟨o, ho, heq.trans hafter.symm⟩)

/-- A failure to write is an error about a file. -/
theorem exitCode_of_writing {e : Error}
    (h : outcome (writeAll files path outs) w = (.error e, after)) :
    e.exitCode = 4 := by
  induction outs generalizing w with
  | nil => cases h
  | cons out outs ih =>
    rw [writeAll, outcome_bind, Access.store, outcome_naming] at h
    cases hwrite : (files.write (join path out.1) out.2).run w with
    | mk result w' =>
      rw [hwrite] at h
      cases result with
      | error cause =>
        obtain rfl : Error.file (join path out.1) cause = e :=
          Except.error.inj (congrArg Prod.fst h)
        rfl
      | ok _ => exact ih h

end Writing

/-! ## Runs -/

/-- The names of the files that a run may write. -/
def outputNames : List String :=
  ["types.ts", "client.ts", "meta.json"]

theorem outputs_names (g : Generated) (time : String) :
    ((outputs g time).map Prod.fst).Sublist outputNames := by
  unfold outputs outputNames
  cases g.clientModule <;> simp

/-- What is different for all names is so for the files that are written. -/
theorem outputs_apart (time : String) {place : String → β}
    (h : (outputNames.map place).Nodup) :
    ((outputs g time).map fun o => place o.1).Nodup := by
  have hsub := (outputs_names g time).map place
  rw [map_map] at hsub
  exact hsub.nodup h

section Runs

variable {files : Access (StateM σ)} {v : View σ}

/-- The ways in which a run can go. -/
inductive Goes (files : Access (StateM σ)) (time : String) (r : Request) (w : σ) :
    Except Error Generated × σ → Prop where
  /-- An input is missing or makes no sense. -/
  | unprepared {e : Error} (hprepare : outcome (prepare files r) w = (.error e, w)) :
      Goes files time r w (.error e, w)
  /-- The output directory cannot be made, or an output cannot be
  written. -/
  | unwritten {g : Generated} {after : σ} {e : Error}
      (hprepare : outcome (prepare files r) w = (.ok g, w))
      (hcode : e.exitCode = 4) : Goes files time r w (.error e, after)
  | done {g : Generated} {made after : σ}
      (hprepare : outcome (prepare files r) w = (.ok g, w))
      (hmake : (files.makeDirectories r.out).run w = (.ok (), made))
      (hwrite : outcome (writeAll files r.out (outputs g time)) made = (.ok (), after)) :
      Goes files time r w (.ok g, after)

theorem goes_generate (laws : files.Laws v) (time : String) (r : Request) (w : σ) :
    Goes files time r w (outcome (generate files time r) w) := by
  have hunchanged := (requires_prepare laws r).unchanged w
  rw [generate, outcome_bind]
  rcases hprepare : outcome (prepare files r) w with ⟨e | g, w'⟩
  · obtain rfl : w' = w := by simpa [hprepare] using hunchanged
    exact .unprepared hprepare
  obtain rfl : w' = w := by simpa [hprepare] using hunchanged
  simp only [outcome_bind, Access.directory, outcome_naming]
  rcases hmake : (files.makeDirectories r.out).run w' with ⟨cause | _, made⟩
  · exact .unwritten hprepare rfl
  simp only [Except.mapError]
  rcases hwrite : outcome (writeAll files r.out (outputs g time)) made with ⟨e | _, after⟩
  · exact .unwritten hprepare (exitCode_of_writing hwrite)
  · exact .done hprepare hmake hwrite

/-- What a run leaves behind that has read the settings and generated
modules. -/
structure Delivers (files : Access (StateM σ)) (v : View σ) (r : Request)
    (w after : σ) (g : Generated) (settings : Settings) : Prop where
  configured : outcome (readSettings files r.config) w = (.ok settings, w)
  prepared : outcome (prepare files r) w = (.ok g, w)
  types : v.contents? after (join r.out "types.ts") = some g.typesText.toUTF8
  client : settings.emitClient = true →
    v.contents? after (join r.out "client.ts") = some g.clientText.toUTF8
  noClient : settings.emitClient = false →
    ∀ f, v.file? after (join r.out "client.ts") = some f → v.bytes? after f = v.bytes? w f
  record : ∃ text, v.contents? after (join r.out "meta.json") = some text.toUTF8
    ∧ recorded? text "schemaHash" = some g.fingerprint
  typesComment : ∃ rest, g.typesText = fingerprintComment g.fingerprint ++ rest
  clientComment : settings.emitClient = true →
    ∃ rest, g.clientText = fingerprintComment g.fingerprint ++ rest
  others : ∀ f, (∀ name ∈ outputNames, v.file? after (join r.out name) ≠ some f) →
    v.bytes? after f = v.bytes? w f

theorem delivers_of_ok (laws : files.Laws v) {time : String} {w after : σ}
    (h : outcome (generate files time r) w = (.ok g, after))
    (hapart : (outputNames.map fun name => v.file? after (join r.out name)).Nodup) :
    ∃ settings, Delivers files v r w after g settings := by
  have hgoes := goes_generate laws time r w
  rw [h] at hgoes
  cases hgoes with
  | done hprepare hmake hwrite =>
    rename_i made
    obtain ⟨settings, schema, routes, hsettings, hg⟩ := exists_of_prepare laws hprepare
    obtain ⟨-, hframe, hcontents⟩ := writeAll_ok laws hwrite
    have hmade : ∀ f, v.bytes? made f = v.bytes? w f := by
      simpa [hmake] using laws.makeDirectories r.out w
    have htext := hcontents (outputs_apart time hapart)
    have hclient : g.clientModule
        = if settings.emitClient then
            some (clientModule schema routes g.typesModule settings g.fingerprint)
          else none := by
      rw [hg]
      rfl
    have hrecord : ("meta.json", metaText g.fingerprint time) ∈ outputs g time := by
      simp [outputs]
    refine ⟨settings,
      { configured := hsettings
        prepared := hprepare
        types := htext ("types.ts", g.typesText) mem_cons_self
        client := fun hemit => ?_
        noClient := fun hemit f hf => ?_
        record := ⟨_, htext _ hrecord, (recorded?_metaText _ _).1⟩
        typesComment := hg ▸ exists_typesModule_render schema routes _
        clientComment := fun hemit => ?_
        others := fun f hf => ?_ }⟩
    · rw [if_pos hemit] at hclient
      exact htext ("client.ts", g.clientText)
        (by simp [outputs, Generated.clientText, hclient])
    · rw [if_neg (by simp [hemit])] at hclient
      rw [hframe f, hmade]
      intro o ho heq
      -- the types and the record are other files than the client
      simp only [outputNames, map_cons, map_nil, nodup_cons, mem_cons,
        not_or, hf] at hapart
      rcases (by simpa [outputs, hclient] using ho) with rfl | rfl
      · exact hapart.1.1 heq
      · exact hapart.2.1.1 heq.symm
    · rw [Generated.clientText, hclient, if_pos hemit]
      exact exists_clientModule_render schema routes _ settings _
    · rw [hframe f, hmade]
      exact fun o ho => hf o.1 ((outputs_names g time).subset (mem_map_of_mem ho))

end Runs

def sampleRequest : Request :=
  { schema := .document "schema.json" }

def sampleWorkspace (text : String) : Workspace :=
  .ofFiles [("schema.json", text)]

end Command

end TypedContent
