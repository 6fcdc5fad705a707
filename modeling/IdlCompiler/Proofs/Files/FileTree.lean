import IdlCompiler.Files.Write

/-!
This module contains what the operations on file trees do to what is at a path. Directories are
made where there was nothing, a file is written at its path only, and nothing else goes with it when
it is removed.
-/

namespace IdlCompiler.FileTree

/--
What was at a path is still there, or there is a directory now where there was nothing.
-/
def Kept (before after : Option FileEntry) : Prop :=
  after = before ∨ before = none ∧ after = some .directory

namespace Kept

variable {a b c : Option FileEntry}

theorem refl (a : Option FileEntry) : Kept a a :=
  .inl rfl

theorem trans (hab : Kept a b) (hbc : Kept b c) : Kept a c := by
  unfold Kept at *
  grind

theorem eq_of_some {entry : FileEntry} (h : Kept (some entry) b) : b = some entry :=
  h.resolve_right fun h => nomatch h.1

end Kept

theorem lookup_filter_ne (entries : List (String × FileEntry)) (k other : String) :
    (entries.filter (·.1 ≠ k)).lookup other = if other = k then none else entries.lookup other := by
  induction entries with
  | nil => simp
  | cons entry entries ih =>
    rw [List.filter_cons, List.lookup_cons]
    grind

variable {t : FileTree} {path other content : String}

theorem get?_put (entry : FileEntry) :
    (t.put path entry).get? other = if key other = key path then some entry else t.get? other := by
  unfold get? put
  rw [List.lookup_cons, lookup_filter_ne]
  grind

theorem get?_remove :
    (t.remove path).get? other = if key other = key path then none else t.get? other := by
  unfold get? remove
  apply lookup_filter_ne

theorem kept_makeDirectories_go (fuel : Nat) (path : String) (t : FileTree) (other : String) :
    Kept (t.get? other) ((makeDirectories.go fuel path t).get? other) := by
  induction fuel generalizing path t with
  | zero => exact .refl _
  | succ fuel ih =>
    rw [makeDirectories.go]
    split
    . exact .refl _
    . next hnone =>
      apply Kept.trans _ (ih _ _)
      rw [get?_put]
      split
      . next hkey =>
        unfold get? at hnone ⊢
        rw [hkey]
        exact .inr ⟨hnone, rfl⟩
      . exact .refl _

theorem kept_makeDirectories (t : FileTree) (path other : String) :
    Kept (t.get? other) ((t.makeDirectories path).get? other) :=
  kept_makeDirectories_go _ _ _ _

theorem get?_write_self (h : key other = key path) :
    (t.write path content).get? other = some (.file content) := by
  unfold write
  apply Kept.eq_of_some
  have hkept := kept_makeDirectories (t.put path (.file content)) (Path.dir (key path)) other
  rwa [get?_put, if_pos h] at hkept

theorem kept_write (h : key other ≠ key path) :
    Kept (t.get? other) ((t.write path content).get? other) := by
  unfold write
  have hkept := kept_makeDirectories (t.put path (.file content)) (Path.dir (key path)) other
  rwa [get?_put, if_neg h] at hkept

def created (t : FileTree) (path : String) : FileTree :=
  (t.create path).1

theorem create_eq (t : FileTree) (path : String) : t.create path = (t.created path, none) := by
  unfold created create
  simp only [ite_self]

theorem created_eq (t : FileTree) (path : String) :
    t.created path =
      (if Path.dir path = "." then t else t.makeDirectories (Path.dir path)).write path "" := by
  unfold created create
  simp only [ite_self]

theorem isSome_get?_makeDirectories_self : ((t.makeDirectories path).get? path).isSome := by
  unfold makeDirectories
  rw [makeDirectories.go]
  split
  . next hsome => simp [hsome]
  . -- The directory is made at once, and the ones above it do not replace it.
    have hkept :=
      kept_makeDirectories_go (path.length + 1) (Path.dir (key path)) (t.put path .directory) path
    rw [get?_put, if_pos rfl] at hkept
    simp [hkept.eq_of_some]

theorem makeDirectories_of_isSome (h : (t.get? path).isSome) : t.makeDirectories path = t := by
  rcases Option.isSome_iff_exists.1 h with ⟨entry, hentry⟩
  unfold makeDirectories
  rw [makeDirectories.go]
  split
  . rfl
  . simp_all

theorem write_created :
    (t.created path).write path content = (t.created path).put path (.file content) := by
  unfold write
  apply makeDirectories_of_isSome
  rw [get?_put]
  split
  . rfl
  . rw [created_eq]
    exact isSome_get?_makeDirectories_self

theorem complete_none (t : FileTree) (path content : String) :
    t.complete path content none = (t.write path content, none) := rfl

theorem complete_some (t : FileTree) (path content : String) (e : Error) :
    t.complete path content (some e) = ((t.write path content).remove path, some e) := rfl

theorem get?_created_self : (t.created path).get? path = some (.file "") := by
  rw [created_eq]
  exact get?_write_self rfl

theorem kept_created (h : key other ≠ key path) :
    Kept (t.get? other) ((t.created path).get? other) := by
  rw [created_eq]
  apply Kept.trans _ (kept_write h)
  split
  . exact .refl _
  . exact kept_makeDirectories _ _ _

/--
Two trees have something at the same paths, and the same one unless the path has one of some keys.
-/
structure SameApartFrom (keys : List String) (t u : FileTree) : Prop where
  isSome_eq (path : String) : (t.get? path).isSome = (u.get? path).isSome
  get?_eq {path : String} : key path ∉ keys → t.get? path = u.get? path

namespace SameApartFrom

variable {keys keys' : List String} {u : FileTree}

theorem refl (keys : List String) (t : FileTree) : SameApartFrom keys t t :=
  ⟨fun _ => rfl, fun _ => rfl⟩

theorem weaken (h : SameApartFrom keys t u) (hsub : keys ⊆ keys') : SameApartFrom keys' t u :=
  ⟨h.isSome_eq, fun hkey => h.get?_eq fun hmem => hkey (hsub hmem)⟩

theorem put (h : SameApartFrom keys t u) {a b : FileEntry} (hab : a = b ∨ key path ∈ keys) :
    SameApartFrom keys (t.put path a) (u.put path b) := by
  constructor
  . intro other
    rw [get?_put, get?_put]
    split
    . rfl
    . exact h.isSome_eq other
  . intro other hother
    rw [get?_put, get?_put]
    split
    . next hkey =>
      rw [hkey] at hother
      rw [hab.resolve_right hother]
    . exact h.get?_eq hother

theorem put_right (h : SameApartFrom keys t u) (entry : FileEntry) (hkey : key path ∈ keys)
    (hsome : (u.get? path).isSome) : SameApartFrom keys t (u.put path entry) := by
  constructor
  . intro other
    rw [get?_put, h.isSome_eq]
    split
    . next heq =>
      unfold get? at hsome ⊢
      rw [heq, hsome]
      rfl
    . rfl
  . intro other hother
    rw [get?_put, if_neg]
    . exact h.get?_eq hother
    . rintro heq
      exact hother (heq ▸ hkey)

theorem makeDirectories_go (h : SameApartFrom keys t u) (fuel : Nat) :
    SameApartFrom keys (makeDirectories.go fuel path t) (makeDirectories.go fuel path u) := by
  induction fuel generalizing path t u with
  | zero => exact h
  | succ fuel ih =>
    have hsome := h.isSome_eq path
    rw [makeDirectories.go, makeDirectories.go]
    split <;> split
    . exact h
    . simp_all
    . simp_all
    . exact ih (h.put (.inl rfl))

theorem makeDirectories (h : SameApartFrom keys t u) (path : String) :
    SameApartFrom keys (t.makeDirectories path) (u.makeDirectories path) :=
  h.makeDirectories_go _

theorem write (h : SameApartFrom keys t u) {a b : String} (hab : a = b ∨ key path ∈ keys) :
    SameApartFrom keys (t.write path a) (u.write path b) := by
  unfold FileTree.write
  apply makeDirectories
  apply h.put
  exact hab.imp_left (congrArg _)

theorem created (h : SameApartFrom keys t u) (path : String) :
    SameApartFrom keys (t.created path) (u.created path) := by
  rw [created_eq, created_eq]
  apply write _ (.inl rfl)
  split
  . exact h
  . exact h.makeDirectories _

theorem read_eq (h : SameApartFrom keys t u) (hpath : key path ∉ keys) :
    t.read path = u.read path := by
  unfold read read?
  rw [h.get?_eq hpath]

end SameApartFrom

end IdlCompiler.FileTree
