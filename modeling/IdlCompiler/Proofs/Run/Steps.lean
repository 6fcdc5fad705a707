import IdlCompiler.CommandLine.Run
import IdlCompiler.Proofs.Except
import IdlCompiler.Proofs.Files.FileTree
import Mathlib

/-!
This module contains the parts of a run of the compiler as functions on its state: what each part
results in, and which files it leaves behind.
-/

namespace IdlCompiler

def Options.Emits (o : Options) : Prop :=
  o.emitTokens = true ∨ o.emitModel = true ∨ o.emitModelJson = true ∨ o.emitOrder = true

namespace Run

variable {α β : Type}

def exec (x : Run α) (s : RunState) : Except Error α × RunState :=
  x.run.run s

@[simp]
theorem exec_pure (a : α) (s : RunState) : exec (pure a) s = (.ok a, s) := rfl

@[simp]
theorem exec_throw (e : Error) (s : RunState) : exec (throw e : Run α) s = (.error e, s) := rfl

@[simp]
theorem exec_get (s : RunState) : exec get s = (.ok s, s) := rfl

@[simp]
theorem exec_modify (f : RunState → RunState) (s : RunState) :
    exec (modify f) s = (.ok (), f s) := rfl

@[simp]
theorem exec_liftM (x : Except Error α) (s : RunState) : exec (liftM x) s = (x, s) := rfl

theorem exec_bind (x : Run α) (f : α → Run β) (s : RunState) :
    exec (x >>= f) s =
      match exec x s with
      | (.ok a, s) => exec (f a) s
      | (.error e, s) => (.error e, s) := by
  unfold exec
  rw [ExceptT.run_bind]
  simp only [StateT.run_bind]
  show (match x.run.run s with | (r, s) => _) = _
  rcases x.run.run s with ⟨r, s'⟩
  cases r <;> rfl

theorem exec_map (f : α → β) (x : Run α) (s : RunState) :
    exec (f <$> x) s =
      match exec x s with
      | (.ok a, s) => (.ok (f a), s)
      | (.error e, s) => (.error e, s) := by
  rw [map_eq_pure_bind, exec_bind]
  rfl

theorem exec_tryCatch (x : Run α) (handle : Error → Run α) (s : RunState) :
    exec (tryCatch x handle) s =
      match exec x s with
      | (.ok a, s) => (.ok a, s)
      | (.error e, s) => exec (handle e) s := by
  unfold exec
  rw [ExceptT.run_tryCatch, StateT.run_bind]
  show (match x.run.run s with | (r, s) => _) = _
  rcases x.run.run s with ⟨r, s'⟩
  cases r <;> rfl

@[simp]
theorem exec_print (text : String) (s : RunState) :
    exec (print text) s = (.ok (), { s with printed := s.printed ++ text }) := rfl

@[simp]
theorem exec_log (entries : List LogEntry) (s : RunState) :
    exec (log entries) s = (.ok (), { s with log := s.log ++ entries }) := rfl

theorem exec_ofOutcome (x : Outcome Error α) (s : RunState) :
    exec (ofOutcome x) s = (x.result, { s with log := s.log ++ x.warnings.map Warning.entry }) := by
  unfold ofOutcome
  rw [exec_bind, exec_log]
  cases x.result <;> rfl

def rendering (job : Job) (o : Output) (path : String) (files : FileTree) :
    Except Error String := do
  let template := job.config.templatePath o
  let text ← (files.read template).mapError (.within ("reading " ++ template) ·)
  let t ← (Template.parse text).mapError (.within template <| .template ·)
  let info : OutputInfo := ⟨path, job.options.version, o.context, job.registry⟩
  let data := Value.map (← (info.context o.language job.declarations).result)
  match if job.options.debug then data.jsonFault? else none with
  | some fault => .error (.within "dumping context" (.undumpable fault))
  | none => .ok (t.render data)

theorem exec_content (job : Job) (o : Output) (path : String) (s : RunState) :
    ∃ log, exec (content job o (job.config.templatePath o) path) s =
      (rendering job o path s.files, { s with log }) := by
  unfold content rendering
  simp only [exec_bind, exec_get]
  cases s.files.read (job.config.templatePath o) with
  | error e =>
    simp only [exec_bind, exec_throw]
    exact ⟨_, rfl⟩
  | ok text =>
    simp only [exec_bind, exec_pure, Except.mapError, Except.ok_bind]
    cases Template.parse text with
    | error e =>
      simp only [exec_bind, exec_throw]
      exact ⟨_, rfl⟩
    | ok t =>
      simp only [exec_bind, exec_pure, exec_ofOutcome, Except.ok_bind]
      generalize OutputInfo.context _ _ _ = x
      rcases x with ⟨warnings, e | data⟩
      . exact ⟨_, rfl⟩
      . dsimp only
        rw [Except.ok_bind]
        cases job.options.debug with
        | false => exact ⟨_, rfl⟩
        | true =>
          simp only [if_true]
          cases (Value.map data).jsonFault? with
          | none =>
            simp only [exec_bind, exec_log, exec_pure]
            exact ⟨_, rfl⟩
          | some fault =>
            simp only [exec_bind, exec_throw]
            exact ⟨_, rfl⟩

theorem exec_writeOutput_of_path_error {job : Job} {defines : List (String × String)} {o : Output}
    {e : Error} (s : RunState) (h : o.renderedPath defines = .error e) :
    exec (writeOutput job defines o) s = (.error e, s) := by
  unfold writeOutput
  rw [exec_bind, exec_liftM, h]

theorem exec_writeOutput {job : Job} {defines : List (String × String)} {o : Output}
    {path : String} (s : RunState) (h : o.renderedPath defines = .ok path) :
    ∃ printed log,
      exec (writeOutput job defines o) s =
        match rendering job o path (s.files.created path) with
        | .ok text => (.ok (), ⟨(s.files.created path).write path text, printed, log⟩)
        | .error e =>
          (.error (.within ("output " ++ Text.quoted o.name) e),
            ⟨((s.files.created path).write path "").remove path, printed, log⟩) := by
  let printed := s.printed ++ Text.Mark.line (job.config.templatePath o ++ " -> " ++ path)
  rcases exec_content job o path ⟨s.files.created path, printed, s.log⟩ with ⟨log, hcontent⟩
  dsimp only [printed] at hcontent
  refine ⟨printed, log, ?_⟩
  unfold writeOutput
  simp only [exec_bind, exec_liftM, h, exec_print, exec_get, FileTree.create_eq, exec_modify,
    exec_tryCatch, exec_map]
  rw [hcontent]
  cases rendering job o path (s.files.created path) with
  | error e =>
    simp only [exec_pure, FileTree.complete_some, exec_throw]
    rfl
  | ok text =>
    simp only [exec_pure, FileTree.complete_none]
    rfl

def prepared (files : FileTree) (c : CommandLine) :
    Except Error (Job × List (String × String)) := do
  let config ← Config.load files (c.options.config.getD "")
  let defines ← Define.readAll c.options.defines
  let schema ← config.extendSchema .builtin
  let registry := config.extendRegistry .builtin
  let declarations ← (Declaration.load schema files c.args).result
  let job := ⟨c.options, config, registry, Declaration.inOrder registry.isSimple declarations⟩
  return (job, defines)

theorem exec_compile {c : CommandLine} (s : RunState) (hemit : ¬c.options.Emits) :
    ∃ log, exec (compile c) s =
      match prepared s.files c with
      | .ok (job, defines) => exec (writeOutputs job defines job.config.outputs) { s with log }
      | .error e => (.error e, { s with log }) := by
  unfold Options.Emits at hemit
  simp only [not_or, Bool.not_eq_true] at hemit
  rcases hemit with ⟨htokens, hmodel, hjson, horder⟩
  unfold compile prepared
  simp only [htokens, hmodel, hjson, horder, exec_bind, exec_get, exec_liftM, Bool.false_eq_true,
    if_false]
  cases Config.load s.files (c.options.config.getD "") with
  | error e => exact ⟨_, rfl⟩
  | ok config =>
    simp only [Except.ok_bind]
    cases Define.readAll c.options.defines with
    | error e => exact ⟨_, rfl⟩
    | ok defines =>
      simp only [Except.ok_bind]
      cases config.extendSchema .builtin with
      | error e => exact ⟨_, rfl⟩
      | ok schema =>
        simp only [Except.ok_bind, exec_ofOutcome]
        cases (Declaration.load schema s.files c.args).result with
        | error e => exact ⟨_, rfl⟩
        | ok declarations => exact ⟨_, rfl⟩

end Run

end IdlCompiler
