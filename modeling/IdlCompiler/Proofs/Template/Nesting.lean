import IdlCompiler.Proofs.Template.Layout

/-!
This module contains that nesting puts back together what unfolding takes apart: the directives of
nodes are nested into these nodes.
-/

namespace IdlCompiler.Template

mutual

theorem nest_unfold (last : Nat) (sections : List OpenSection) (nodes : List Node) (n : Node)
    {ls : List Located} (h : ls.map (·.directive) = n.unfold) (rest : List Located) :
    nest last sections nodes (ls ++ rest) = nest last sections (n :: nodes) rest := by
  cases n with
  | block kind path body =>
    rw [Node.unfold, List.map_eq_cons_iff] at h
    obtain ⟨⟨line, _⟩, ls, rfl, rfl, h⟩ := h
    rw [List.map_eq_append_iff] at h
    obtain ⟨inner, ls, rfl, hinner, h⟩ := h
    rw [List.map_eq_cons_iff] at h
    obtain ⟨⟨line', _⟩, ls, rfl, rfl, h⟩ := h
    rw [List.map_eq_nil_iff] at h
    subst h
    have hbody := nest_unfoldAll last (⟨kind, path, nodes⟩ :: sections) [] body hinner
      (⟨line', .leave path⟩ :: rest)
    rw [List.cons_append, List.append_assoc, nest, List.singleton_append, hbody, nest, if_pos rfl,
      List.append_nil, List.reverse_reverse]
  | _ =>
    rw [Node.unfold, List.map_eq_cons_iff] at h
    obtain ⟨⟨line, _⟩, ls, rfl, rfl, h⟩ := h
    rw [List.map_eq_nil_iff] at h
    subst h
    rw [List.singleton_append, nest]

theorem nest_unfoldAll (last : Nat) (sections : List OpenSection) (nodes : List Node)
    (ns : List Node) {ls : List Located} (h : ls.map (·.directive) = unfoldAll ns)
    (rest : List Located) :
    nest last sections nodes (ls ++ rest) = nest last sections (ns.reverse ++ nodes) rest := by
  cases ns with
  | nil =>
    rw [unfoldAll, List.map_eq_nil_iff] at h
    subst h
    rfl
  | cons n ns =>
    rw [unfoldAll, List.map_eq_append_iff] at h
    obtain ⟨first, others, rfl, hfirst, hothers⟩ := h
    have hn := nest_unfold last sections nodes n hfirst (others ++ rest)
    have hns := nest_unfoldAll last sections (n :: nodes) ns hothers rest
    rw [List.append_assoc, hn, hns, List.reverse_cons, List.append_assoc]
    rfl

end

theorem parse_of_unfoldAll {text : String} {ls : List Located} {ns : List Node}
    (hls : Located.ofText text = .ok ls) (h : ls.map (·.directive) = unfoldAll ns) :
    parse text = .ok ⟨tidyAll .start ns⟩ := by
  have hnest := nest_unfoldAll ((ls.getLast?.map (·.line)).getD 1) [] [] ns h []
  rw [List.append_nil, List.append_nil, nest, List.reverse_reverse] at hnest
  unfold parse
  rw [hls, Except.ok_bind]
  dsimp only
  rw [hnest]
  rfl

end IdlCompiler.Template
