import IdlCompiler.Proofs.Run.Steps

/-!
This module contains what a run does to the files: outputs are written in turn up to the first one
that fails, and nothing but their files changes, except that directories are made for them.
-/

namespace IdlCompiler

open FileTree (key Kept SameApartFrom)

namespace Run

def Job.outputs (job : Job) : List Output :=
  job.config.outputs.filter (!·.isSkipped)

def outputKeys (defines : List (String × String)) (os : List Output) : List String :=
  os.filterMap fun o => (o.renderedPath defines).toOption.map key

def outputsCreated (defines : List (String × String)) (files : FileTree) (os : List Output) :
    FileTree :=
  os.foldl (fun t o => ((o.renderedPath defines).toOption.map t.created).getD t) files

/--
The path and the content of an output behind others. The template is read from the files at the
start and the directories made for this output and those before it: a directory reads as an empty
template, so one that was made where there was nothing is no error.
-/
def rendered (job : Job) (defines : List (String × String)) (files : FileTree)
    (before : List Output) (o : Output) : Except Error (String × String) := do
  let path ← o.renderedPath defines
  let text ← rendering job o path ((outputsCreated defines files before).created path)
  return (path, text)

structure PathsApart (job : Job) (defines : List (String × String)) : Prop where
  nodup_keys : (outputKeys defines job.outputs).Nodup
  template_not_mem {o : Output} : o ∈ job.outputs →
    key (job.config.templatePath o) ∉ outputKeys defines job.outputs

variable {job : Job} {defines : List (String × String)} {files t : FileTree}
  {done os before after : List Output} {o : Output} {path text : String}

theorem outputKeys_append (xs ys : List Output) :
    outputKeys defines (xs ++ ys) = outputKeys defines xs ++ outputKeys defines ys := by
  unfold outputKeys
  rw [List.filterMap_append]

theorem outputKeys_singleton (hpath : o.renderedPath defines = .ok path) :
    outputKeys defines [o] = [key path] := by
  simp [outputKeys, hpath, Except.toOption]

theorem outputsCreated_append_singleton (hpath : o.renderedPath defines = .ok path) :
    outputsCreated defines files (done ++ [o]) =
      (outputsCreated defines files done).created path := by
  unfold outputsCreated
  simp [List.foldl_append, hpath, Except.toOption]

theorem rendered_eq_ok_iff :
    rendered job defines files before o = .ok (path, text) ↔
      o.renderedPath defines = .ok path ∧
        rendering job o path ((outputsCreated defines files before).created path) = .ok text := by
  unfold rendered
  simp only [Except.bind_eq_ok_iff]
  constructor
  . rintro ⟨_, hpath, _, htext, h⟩
    cases h
    exact ⟨hpath, htext⟩
  . rintro ⟨hpath, htext⟩
    exact ⟨path, hpath, text, htext, rfl⟩

theorem rendering_congr {u : FileTree}
    (h : t.read (job.config.templatePath o) = u.read (job.config.templatePath o)) :
    rendering job o path t = rendering job o path u := by
  unfold rendering
  dsimp only
  rw [h]

namespace PathsApart

theorem key_not_mem (hapart : PathsApart job defines) (hos : job.outputs = before ++ o :: after)
    (hpath : o.renderedPath defines = .ok path) : key path ∉ outputKeys defines before := by
  have hnodup := hapart.nodup_keys
  rw [hos, List.append_cons, outputKeys_append, outputKeys_append, outputKeys_singleton hpath]
    at hnodup
  have := (List.nodup_append.1 (List.nodup_append.1 hnodup).1).2.2
  intro hmem
  exact this _ hmem _ List.mem_cons_self rfl

theorem template_not_mem_append (hapart : PathsApart job defines)
    (hos : job.outputs = before ++ o :: after) :
    key (job.config.templatePath o) ∉ outputKeys defines (before ++ [o]) := by
  have hmem : o ∈ job.outputs := by simp [hos]
  have := hapart.template_not_mem hmem
  rw [hos, List.append_cons, outputKeys_append] at this
  intro hkey
  exact this (List.mem_append_left _ hkey)

end PathsApart

theorem key_mem_outputKeys (hpath : o.renderedPath defines = .ok path) :
    key path ∈ outputKeys defines (before ++ o :: after) := by
  rw [List.append_cons, outputKeys_append, outputKeys_append, outputKeys_singleton hpath]
  simp

def Each (P : List Output → Output → Prop) (os : List Output) : Prop :=
  ∀ before o after, os = before ++ o :: after → P before o

theorem each_append_singleton {P : List Output → Output → Prop} :
    Each P (os ++ [o]) ↔ Each P os ∧ P os o := by
  constructor
  . intro h
    refine ⟨?_, h os o [] rfl⟩
    rintro before o' after rfl
    apply h before o' (after ++ [o])
    rw [List.append_assoc, List.cons_append]
  . rintro ⟨hos, ho⟩ before o' after h
    rcases after.eq_nil_or_concat with rfl | ⟨init, last, rfl⟩
    . rcases List.append_inj' h rfl with ⟨rfl, hlast⟩
      cases hlast
      exact ho
    . rw [List.concat_eq_append, ← List.cons_append, ← List.append_assoc] at h
      exact hos before o' init (List.append_inj' h rfl).1

def AllRendered (job : Job) (defines : List (String × String)) (files : FileTree) :
    List Output → Prop :=
  Each fun before o => ∃ path text, rendered job defines files before o = .ok (path, text)

def Holds (job : Job) (defines : List (String × String)) (files : FileTree) (os : List Output)
    (t : FileTree) : Prop :=
  Each (fun before o => ∃ path text, rendered job defines files before o = .ok (path, text) ∧
    t.get? path = some (.file text)) os

namespace Holds

theorem append_singleton (h : Holds job defines files os t)
    (hrendered : rendered job defines files os o = .ok (path, text))
    (hget : t.get? path = some (.file text)) : Holds job defines files (os ++ [o]) t :=
  each_append_singleton.2 ⟨h, path, text, hrendered, hget⟩

theorem of_kept {u : FileTree} (h : Holds job defines files os t)
    (hkept : ∀ path, key path ∈ outputKeys defines os → Kept (t.get? path) (u.get? path)) :
    Holds job defines files os u := by
  intro before o after hos
  rcases h before o after hos with ⟨path, text, hrendered, hget⟩
  have hmem : key path ∈ outputKeys defines os := by
    rw [hos]
    exact key_mem_outputKeys (rendered_eq_ok_iff.1 hrendered).1
  have hpath := hkept path hmem
  rw [hget] at hpath
  exact ⟨path, text, hrendered, hpath.eq_of_some⟩

end Holds

structure Fails (job : Job) (defines : List (String × String)) (files : FileTree)
    (before : List Output) (o : Output) : Prop where
  outputs_eq : ∃ after, job.outputs = before ++ o :: after
  allRendered : AllRendered job defines files before
  not_rendered : ∃ e, rendered job defines files before o = .error e

theorem allRendered_of_not_fails (h : ∀ before o, ¬Fails job defines files before o)
    (hos : job.outputs = os ++ after) : AllRendered job defines files os := by
  induction os using List.reverseRec generalizing after with
  | nil =>
    intro before o rest hnil
    simp at hnil
  | append_singleton os o ih =>
    rw [List.append_assoc, List.singleton_append] at hos
    have hbefore := ih hos
    apply each_append_singleton.2 ⟨hbefore, _⟩
    cases hrendered : rendered job defines files os o with
    | ok r => exact ⟨r.1, r.2, rfl⟩
    | error e => exact absurd ⟨⟨after, hos⟩, hbefore, e, hrendered⟩ (h os o)

/--
Outputs were written, and elsewhere nothing happened. For the outputs behind them the files are as
if these were made but still empty.
-/
structure Written (job : Job) (defines : List (String × String)) (files : FileTree)
    (done : List Output) (t : FileTree) : Prop where
  holds : Holds job defines files done t
  kept (path : String) : key path ∉ outputKeys defines done → Kept (files.get? path) (t.get? path)
  same : SameApartFrom (outputKeys defines done) (outputsCreated defines files done) t

/--
An output failed: those before it are written, its own file is gone, and elsewhere nothing happened.
-/
structure Interrupted (job : Job) (defines : List (String × String)) (files : FileTree)
    (done : List Output) (o : Output) (t : FileTree) : Prop where
  holds : Holds job defines files done t
  removed (path : String) : o.renderedPath defines = .ok path → t.get? path = none
  kept (path : String) : key path ∉ outputKeys defines (done ++ [o]) →
    Kept (files.get? path) (t.get? path)

namespace Written

theorem start (job : Job) (defines : List (String × String)) (files : FileTree) :
    Written job defines files [] files where
  holds := by
    intro before o after h
    simp at h
  kept _ _ := .refl _
  same := .refl _ _

theorem rendering_eq (h : Written job defines files done t) (hapart : PathsApart job defines)
    (hos : job.outputs = done ++ o :: after) :
    rendering job o path (t.created path) =
      rendering job o path ((outputsCreated defines files done).created path) := by
  apply rendering_congr
  have hkeys : outputKeys defines done ⊆ outputKeys defines (done ++ [o]) := by
    rw [outputKeys_append]
    exact List.subset_append_left _ _
  have hsame := (h.same.weaken hkeys).created path
  exact (hsame.read_eq (hapart.template_not_mem_append hos)).symm

theorem holds_and_kept {u : FileTree} (h : Written job defines files done t)
    (hapart : PathsApart job defines) (hos : job.outputs = done ++ o :: after)
    (hpath : o.renderedPath defines = .ok path)
    (hother : ∀ other, key other ≠ key path → Kept (t.get? other) (u.get? other)) :
    Holds job defines files done u ∧
      ∀ other, key other ∉ outputKeys defines (done ++ [o]) →
        Kept (files.get? other) (u.get? other) := by
  have hnew := hapart.key_not_mem hos hpath
  constructor
  . apply h.holds.of_kept
    intro other hmem
    apply hother
    intro heq
    exact hnew (heq ▸ hmem)
  . intro other hmem
    rw [outputKeys_append, outputKeys_singleton hpath, List.mem_append, List.mem_singleton,
      not_or] at hmem
    exact (h.kept other hmem.1).trans (hother other hmem.2)

theorem append (h : Written job defines files done t) (hapart : PathsApart job defines)
    (hos : job.outputs = done ++ o :: after)
    (hrendered : rendered job defines files done o = .ok (path, text)) :
    Written job defines files (done ++ [o]) ((t.created path).write path text) := by
  have hpath := (rendered_eq_ok_iff.1 hrendered).1
  have hother (other : String) (hne : key other ≠ key path) :
      Kept (t.get? other) (((t.created path).write path text).get? other) :=
    (FileTree.kept_created hne).trans (FileTree.kept_write hne)
  rcases h.holds_and_kept hapart hos hpath hother with ⟨hholds, hkept⟩
  refine ⟨hholds.append_singleton hrendered (FileTree.get?_write_self rfl), hkept, ?_⟩
  rw [FileTree.write_created, outputsCreated_append_singleton hpath, outputKeys_append,
    outputKeys_singleton hpath]
  have hsame := (h.same.weaken (List.subset_append_left _ [key path])).created path
  apply hsame.put_right
  . simp
  . simp [FileTree.get?_created_self]

theorem remove (h : Written job defines files done t) (hapart : PathsApart job defines)
    (hos : job.outputs = done ++ o :: after) (hpath : o.renderedPath defines = .ok path) :
    Interrupted job defines files done o (((t.created path).write path "").remove path) := by
  have hother (other : String) (hne : key other ≠ key path) :
      Kept (t.get? other) ((((t.created path).write path "").remove path).get? other) := by
    rw [FileTree.get?_remove, if_neg hne]
    exact (FileTree.kept_created hne).trans (FileTree.kept_write hne)
  rcases h.holds_and_kept hapart hos hpath hother with ⟨hholds, hkept⟩
  refine ⟨hholds, ?_, hkept⟩
  intro path' hpath'
  cases hpath.symm.trans hpath'
  rw [FileTree.get?_remove, if_pos rfl]

theorem interrupted (h : Written job defines files done t) {e : Error}
    (hpath : o.renderedPath defines = .error e) : Interrupted job defines files done o t := by
  refine ⟨h.holds, ?_, ?_⟩
  . intro path hok
    cases hpath.symm.trans hok
  . intro other hmem
    apply h.kept
    rw [outputKeys_append] at hmem
    intro hdone
    exact hmem (List.mem_append_left _ hdone)

end Written

theorem exec_writeOutputs_cons (s : RunState) :
    exec (writeOutputs job defines (o :: os)) s =
      if o.isSkipped then exec (writeOutputs job defines os) s
      else
        match exec (writeOutput job defines o) s with
        | (.ok _, s) => exec (writeOutputs job defines os) s
        | (.error e, s) => (.error e, s) := by
  rw [writeOutputs]
  cases o.isSkipped with
  | true => rfl
  | false =>
    simp only [exec_bind, Bool.false_eq_true, if_false]
    rcases exec (writeOutput job defines o) s with ⟨_ | _, _⟩ <;> rfl

theorem exec_writeOutputs_filter (os : List Output) (s : RunState) :
    exec (writeOutputs job defines (os.filter (!·.isSkipped))) s =
      exec (writeOutputs job defines os) s := by
  induction os generalizing s with
  | nil => rfl
  | cons o os ih =>
    rw [exec_writeOutputs_cons, List.filter_cons]
    cases hskip : o.isSkipped with
    | true => simpa using ih s
    | false =>
      simp only [Bool.not_false, if_true, Bool.false_eq_true, if_false]
      rw [exec_writeOutputs_cons]
      simp only [hskip, ih]
      rfl

theorem isSkipped_of_outputs_eq (hos : job.outputs = before ++ o :: after) :
    o.isSkipped = false := by
  have hmem : o ∈ job.outputs := by simp [hos]
  simpa using (List.mem_filter.1 hmem).2

theorem exec_writeOutput_of_rendered {s : RunState} (h : Written job defines files done s.files)
    (hapart : PathsApart job defines) (hos : job.outputs = done ++ o :: after)
    (hrendered : rendered job defines files done o = .ok (path, text)) :
    ∃ s', exec (writeOutput job defines o) s = (.ok (), s') ∧
      Written job defines files (done ++ [o]) s'.files := by
  rcases rendered_eq_ok_iff.1 hrendered with ⟨hpath, htext⟩
  rcases exec_writeOutput s hpath with ⟨printed, log, hexec⟩
  rw [h.rendering_eq hapart hos, htext] at hexec
  refine ⟨_, hexec, ?_⟩
  dsimp only
  exact h.append hapart hos hrendered

theorem exec_writeOutput_of_error {s : RunState} {e : Error}
    (h : Written job defines files done s.files) (hapart : PathsApart job defines)
    (hos : job.outputs = done ++ o :: after)
    (hrendered : rendered job defines files done o = .error e) :
    ∃ e' s', exec (writeOutput job defines o) s = (.error e', s') ∧
      Interrupted job defines files done o s'.files := by
  cases hpath : o.renderedPath defines with
  | error e' => exact ⟨e', s, exec_writeOutput_of_path_error s hpath, h.interrupted hpath⟩
  | ok path =>
    rcases exec_writeOutput s hpath with ⟨printed, log, hexec⟩
    rw [h.rendering_eq hapart hos] at hexec
    cases htext : rendering job o path ((outputsCreated defines files done).created path) with
    | ok text =>
      have hok : rendered job defines files done o = .ok (path, text) :=
        rendered_eq_ok_iff.2 ⟨hpath, htext⟩
      rw [hrendered] at hok
      exact nomatch hok
    | error e' =>
      rw [htext] at hexec
      refine ⟨_, _, hexec, ?_⟩
      dsimp only
      exact h.remove hapart hos hpath

theorem exec_writeOutputs_append {s : RunState} (h : Written job defines files done s.files)
    (hapart : PathsApart job defines) (hos : job.outputs = done ++ os ++ after)
    (hrendered : AllRendered job defines files (done ++ os)) :
    ∃ s', exec (writeOutputs job defines (os ++ after)) s =
        exec (writeOutputs job defines after) s' ∧
      Written job defines files (done ++ os) s'.files := by
  -- `Written` is what is known each time, of more and more outputs that are done.
  induction os generalizing done s with
  | nil => exact ⟨s, rfl, by simpa using h⟩
  | cons o os ih =>
    rcases hrendered done o os rfl with ⟨path, text, ho⟩
    have hos' : job.outputs = done ++ o :: (os ++ after) := by simpa using hos
    rcases exec_writeOutput_of_rendered h hapart hos' ho with ⟨s₁, hexec, h₁⟩
    have hskip := isSkipped_of_outputs_eq hos'
    rw [List.append_cons] at hos hrendered ⊢
    rcases ih h₁ hos hrendered with ⟨s₂, hrest, h₂⟩
    refine ⟨s₂, ?_, h₂⟩
    rw [List.cons_append, exec_writeOutputs_cons, hskip, hexec]
    exact hrest

theorem exec_writeOutputs_of_rendered {s : RunState} (hapart : PathsApart job defines)
    (hrendered : AllRendered job defines s.files job.outputs) :
    ∃ s', exec (writeOutputs job defines job.config.outputs) s = (.ok (), s') ∧
      Written job defines s.files job.outputs s'.files := by
  have hstart := Written.start job defines s.files
  have hos : job.outputs = [] ++ job.outputs ++ [] := by simp
  rcases exec_writeOutputs_append hstart hapart hos hrendered with ⟨s', hexec, h⟩
  rw [List.append_nil] at hexec
  rw [Job.outputs, exec_writeOutputs_filter] at hexec
  exact ⟨s', hexec, h⟩

theorem exec_writeOutputs_of_fails {s : RunState} (hapart : PathsApart job defines)
    (hfails : Fails job defines s.files before o) :
    ∃ e s', exec (writeOutputs job defines job.config.outputs) s = (.error e, s') ∧
      Interrupted job defines s.files before o s'.files := by
  rcases hfails with ⟨⟨after, hos⟩, hbefore, e, ho⟩
  have hstart := Written.start job defines s.files
  rcases exec_writeOutputs_append hstart hapart (by simpa using hos) (by simpa using hbefore)
    with ⟨s₁, hexec, h₁⟩
  rcases exec_writeOutput_of_error h₁ hapart hos ho with ⟨e', s', herror, h⟩
  refine ⟨e', s', ?_, h⟩
  have hskip := isSkipped_of_outputs_eq hos
  rw [exec_writeOutputs_cons, hskip, herror, ← hos] at hexec
  rw [← exec_writeOutputs_filter]
  exact hexec

end Run

end IdlCompiler
