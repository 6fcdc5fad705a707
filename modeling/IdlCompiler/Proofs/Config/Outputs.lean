import IdlCompiler.Config.Basic
import IdlCompiler.Proofs.Except
import Mathlib.Data.String.Basic

/-!
This module contains the order of the outputs of a configuration: it is that of their names.
-/

namespace IdlCompiler.Config

variable {format : Format}

theorem name_output {name : String} {d : Document} {o : Output}
    (h : output format name d = .ok o) : o.name = name := by
  unfold output at h
  split at h
  . cases h
    rfl
  . simp only [Except.bind_eq_ok_iff] at h
    rcases h with ⟨template, -, path, -, lang, -, h⟩
    split at h
    . cases h
      rfl
    . cases h
      rfl
    . cases h
      rfl
    . cases h
  . cases h

theorem pairwise_sorted (entries : List (String × Document)) :
    (sorted entries).Pairwise (fun a b => a.1 ≤ b.1) := by
  have h : (sorted entries).Pairwise (fun a b => decide (a.1 ≤ b.1) = true) := by
    apply List.pairwise_mergeSort
    . simpa using fun a b c => le_trans
    . intro a b
      simpa using le_total a.1 b.1
  simpa using h

theorem pairwise_outputsOf {entries : List (String × Document)} {os : List Output}
    (h : outputsOf format entries = .ok os) : os.Pairwise (·.name ≤ ·.name) := by
  unfold outputsOf at h
  rcases Except.bind_eq_ok_iff.1 h with ⟨outputs, houtputs, h⟩
  have hnames : outputs.map (·.name) = (sorted entries).map (·.1) :=
    Except.map_eq_map_of_mapM_eq_ok (fun _ _ => name_output) houtputs
  have hsorted : outputs.Pairwise (·.name ≤ ·.name) := by
    apply List.pairwise_map.1
    rw [hnames]
    exact List.pairwise_map.2 (pairwise_sorted entries)
  split at h
  . cases h
    apply List.pairwise_map.2
    exact hsorted.filter _
  . cases h
    exact hsorted.filter _

theorem pairwise_outputs_of_ofTable {root : List (String × Document)} {config : Config}
    (h : ofTable format root = .ok config) : config.outputs.Pairwise (·.name ≤ ·.name) := by
  unfold ofTable at h
  simp only [Except.bind_eq_ok_iff] at h
  rcases h with ⟨_, -, outputs, houtputs, _, -, _, -, _, -, _, -, _, -, _, -, h⟩
  cases h
  exact pairwise_outputsOf houtputs

theorem pairwise_outputs_of_parse {text format : String} {config : Config}
    (h : parse text format = .ok config) : config.outputs.Pairwise (·.name ≤ ·.name) := by
  unfold parse at h
  split at h
  . cases h
  . unfold ofDocument? at h
    split at h
    . exact pairwise_outputs_of_ofTable h
    . exact pairwise_outputs_of_ofTable h
    . cases h

theorem pairwise_outputs_of_load {files : FileTree} {path : String} {config : Config}
    (h : load files path = .ok config) : config.outputs.Pairwise (·.name ≤ ·.name) := by
  unfold load at h
  split at h
  . cases h
  . split at h
    . cases h
    . next hparse =>
      have hpairwise := pairwise_outputs_of_parse hparse
      cases h
      exact hpairwise

end IdlCompiler.Config
