import IdlCompiler.Proofs.Config.Outputs
import IdlCompiler.Proofs.Run.Outputs

/-!
This module contains what a run of the compiler that writes outputs leaves behind. One that fails
before the outputs leaves the files as they were, and one that fails at an output leaves the outputs
before it complete.
-/

namespace IdlCompiler

open FileTree (key Kept)

variable {files : FileTree} {time : String} {words : List String} {c : CommandLine}

theorem Run.pairwise_outputs_of_prepared {job : Job} {defines : List (String × String)}
    (h : prepared files c = .ok (job, defines)) : job.outputs.Pairwise (·.name ≤ ·.name) := by
  unfold prepared at h
  simp only [Except.bind_eq_ok_iff] at h
  rcases h with ⟨config, hconfig, _, -, _, -, _, -, h⟩
  cases h
  exact (Config.pairwise_outputs_of_load hconfig).filter _

theorem runCompiler_of_ok {s : RunState} (hread : CommandLine.read words = .ok c)
    (h : Run.exec (Run.compile c) ⟨files, "", []⟩ = (.ok (), s)) :
    (runCompiler time files words).exitCode = 0 ∧
      (runCompiler time files words).files = s.files := by
  unfold Run.exec at h
  unfold runCompiler
  simp only [hread, h]
  exact ⟨trivial, trivial⟩

theorem runCompiler_of_error {s : RunState} {e : Error} (hread : CommandLine.read words = .ok c)
    (h : Run.exec (Run.compile c) ⟨files, "", []⟩ = (.error e, s)) :
    (runCompiler time files words).exitCode = 1 ∧
      (runCompiler time files words).files = s.files := by
  unfold Run.exec at h
  unfold runCompiler
  simp only [hread, h]
  exact ⟨trivial, trivial⟩

/--
A run that fails before the outputs changes no file. After that outputs are written in the order of
their names; one that fails is removed, and nothing is written for those behind it.
-/
theorem files_runCompiler (time : String) (files : FileTree)
    (hread : CommandLine.read words = .ok c) (hemit : ¬c.options.Emits) :
    (∀ e, Run.prepared files c = .error e →
      (runCompiler time files words).exitCode = 1 ∧
        (runCompiler time files words).files = files) ∧
    ∀ job defines, Run.prepared files c = .ok (job, defines) →
      job.outputs.Pairwise (·.name ≤ ·.name) ∧
      (Run.PathsApart job defines →
        (∀ before o, Run.Fails job defines files before o →
          (runCompiler time files words).exitCode = 1 ∧
            Run.Interrupted job defines files before o (runCompiler time files words).files) ∧
        ((∀ before o, ¬Run.Fails job defines files before o) →
          (runCompiler time files words).exitCode = 0 ∧
            Run.Holds job defines files job.outputs (runCompiler time files words).files ∧
            ∀ path, key path ∉ Run.outputKeys defines job.outputs →
              Kept (files.get? path) ((runCompiler time files words).files.get? path))) := by
  rcases Run.exec_compile ⟨files, "", []⟩ hemit with ⟨log, hcompile⟩
  constructor
  . intro e hprepared
    simp only [hprepared] at hcompile
    exact runCompiler_of_error hread hcompile
  . intro job defines hprepared
    simp only [hprepared] at hcompile
    refine ⟨Run.pairwise_outputs_of_prepared hprepared, fun hapart => ⟨?_, ?_⟩⟩
    . intro before o hfails
      rcases Run.exec_writeOutputs_of_fails (s := ⟨files, "", log⟩) hapart hfails
        with ⟨e, s, hwrite, hinterrupted⟩
      rcases runCompiler_of_error hread (hcompile.trans hwrite) with ⟨hcode, hfiles⟩
      rw [hfiles]
      exact ⟨hcode, hinterrupted⟩
    . intro hfails
      have hrendered := Run.allRendered_of_not_fails hfails (List.append_nil _).symm
      rcases Run.exec_writeOutputs_of_rendered (s := ⟨files, "", log⟩) hapart hrendered
        with ⟨s, hwrite, hwritten⟩
      rcases runCompiler_of_ok hread (hcompile.trans hwrite) with ⟨hcode, hfiles⟩
      rw [hfiles]
      exact ⟨hcode, hwritten.holds, hwritten.kept⟩

namespace Run

def firstOutput : Output :=
  { name := "a", template := "t", path := "x" }

def secondOutput : Output :=
  { name := "b", template := "u", path := "y" }

def brokenFiles : FileTree where
  entries := [
    ("c.json", .file ("\x7b\"mustache\":\x7b\"a\":\x7b\"template\":\"t\",\"path\":\"x\"\x7d," ++
      "\"b\":\x7b\"template\":\"u\",\"path\":\"y\"\x7d\x7d\x7d")),
    ("m.idl", .file ""),
    ("t", .file "text"),
    ("u", .file "\x7b\x7b/t\x7d\x7d"),
    ("y", .file "old")]

def brokenCommand : CommandLine :=
  ⟨{ config := some "c.json" }, ["m.idl"]⟩

def brokenJob : Job where
  options := brokenCommand.options
  config := { dir := ".", outputs := [firstOutput, secondOutput] }
  registry := .builtin
  declarations := []

theorem prepared_brokenFiles : prepared brokenFiles brokenCommand = .ok (brokenJob, []) := by
  have hconfig : Config.load brokenFiles "c.json" = .ok brokenJob.config := by
    cbv
  have hload (s : Schema) : (Declaration.load s brokenFiles ["m.idl"]).result = .ok [] := by
    cbv
  have horder (f : String → Bool) : Declaration.inOrder f [] = [] := by
    cbv
  unfold prepared
  simp only [brokenCommand, Option.getD_some, hconfig, Except.ok_bind, hload, horder]
  rfl

theorem renderedPath_firstOutput : firstOutput.renderedPath [] = .ok "x" := by
  cbv

theorem renderedPath_secondOutput : secondOutput.renderedPath [] = .ok "y" := by
  cbv

theorem outputs_brokenJob : brokenJob.outputs = [firstOutput, secondOutput] := by
  cbv

theorem pathsApart_brokenJob : PathsApart brokenJob [] := by
  have hkeys : outputKeys [] brokenJob.outputs = ["x", "y"] := by
    simp only [outputKeys, outputs_brokenJob, List.filterMap, renderedPath_firstOutput,
      renderedPath_secondOutput]
    decide
  constructor
  . rw [hkeys]
    decide
  . intro o ho
    rw [outputs_brokenJob, List.mem_pair] at ho
    rw [hkeys]
    rcases ho with rfl | rfl
    . decide
    . decide

theorem rendered_firstOutput :
    rendered brokenJob [] brokenFiles [] firstOutput = .ok ("x", "text") := by
  have htext : rendering brokenJob firstOutput "x" (brokenFiles.created "x") = .ok "text" := by
    cbv
  exact rendered_eq_ok_iff.2 ⟨renderedPath_firstOutput, htext⟩

theorem fails_secondOutput : Fails brokenJob [] brokenFiles [firstOutput] secondOutput := by
  constructor
  . exact ⟨[], outputs_brokenJob⟩
  . intro before o after h
    rcases List.singleton_eq_append_iff.1 h with ⟨rfl, h⟩ | ⟨rfl, h⟩
    . cases h
      exact ⟨"x", "text", rendered_firstOutput⟩
    . cases h
  . refine ⟨.within "u" (.template ⟨1, .closedRoot "t"⟩), ?_⟩
    cbv

end Run

theorem files_runCompiler_brokenFiles :
    CommandLine.read ["-c", "c.json", "m.idl"] = .ok Run.brokenCommand ∧
      ¬Run.brokenCommand.options.Emits ∧
      (runCompiler "" Run.brokenFiles ["-c", "c.json", "m.idl"]).exitCode = 1 ∧
      (runCompiler "" Run.brokenFiles ["-c", "c.json", "m.idl"]).files.get? "x" =
        some (.file "text") ∧
      (runCompiler "" Run.brokenFiles ["-c", "c.json", "m.idl"]).files.get? "y" = none := by
  have hread : CommandLine.read ["-c", "c.json", "m.idl"] = .ok Run.brokenCommand := by
    cbv
  have hemit : ¬Run.brokenCommand.options.Emits := by
    simp [Options.Emits, Run.brokenCommand]
  rcases files_runCompiler "" Run.brokenFiles hread hemit with ⟨-, hprepared⟩
  rcases hprepared _ _ Run.prepared_brokenFiles with ⟨-, hfiles⟩
  rcases (hfiles Run.pathsApart_brokenJob).1 _ _ Run.fails_secondOutput with ⟨hcode, h⟩
  refine ⟨hread, hemit, hcode, ?_, h.removed "y" Run.renderedPath_secondOutput⟩
  rcases h.holds [] Run.firstOutput [] rfl with ⟨path, text, hrendered, hget⟩
  cases Run.rendered_firstOutput.symm.trans hrendered
  exact hget

end IdlCompiler
