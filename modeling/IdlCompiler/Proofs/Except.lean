/-!
This module contains when computations that may fail succeed, one lemma for each way of putting them
together.
-/

namespace IdlCompiler.Except

theorem bind_eq_ok_iff {ε α β : Type} {x : Except ε α} {f : α → Except ε β} {b : β} :
    x >>= f = .ok b ↔ ∃ a, x = .ok a ∧ f a = .ok b := by
  cases x with
  | error e => simp [bind, Except.bind]
  | ok a => simp [bind, Except.bind]

theorem bind_eq_error_iff {ε α β : Type} {x : Except ε α} {f : α → Except ε β} {e : ε} :
    x >>= f = .error e ↔ x = .error e ∨ ∃ a, x = .ok a ∧ f a = .error e := by
  cases x with
  | error e => simp [bind, Except.bind]
  | ok a => simp [bind, Except.bind]

theorem map_eq_ok_iff {ε α β : Type} {x : Except ε α} {f : α → β} {b : β} :
    x.map f = .ok b ↔ ∃ a, x = .ok a ∧ f a = b := by
  cases x with
  | error e => simp [Except.map]
  | ok a => simp [Except.map]

theorem map_eq_error_iff {ε α β : Type} {x : Except ε α} {f : α → β} {e : ε} :
    x.map f = .error e ↔ x = .error e := by
  cases x <;> simp [Except.map]

theorem mapError_eq_ok_iff {ε ε' α : Type} {f : ε → ε'} {x : Except ε α} {a : α} :
    x.mapError f = .ok a ↔ x = .ok a := by
  cases x with
  | error e =>
    constructor
    . intro h
      cases h
    . intro h
      cases h
  | ok b =>
    constructor
    . intro h
      cases h
      rfl
    . intro h
      cases h
      rfl

@[simp]
theorem ok_bind {ε α β : Type} (a : α) (f : α → Except ε β) :
    (Except.ok a >>= f) = f a := rfl

theorem mapM_eq_ok_iff {ε α β : Type} {f : α → Except ε β} {xs : List α} {ys : List β} :
    xs.mapM f = .ok ys ↔ xs.map f = ys.map .ok := by
  induction xs generalizing ys with
  | nil => cases ys <;> simp [pure, Except.pure]
  | cons x xs ih =>
    rw [List.mapM_cons, bind_eq_ok_iff]
    simp only [bind_eq_ok_iff, ih]
    cases ys <;> simp [pure, Except.pure, eq_comm]

theorem map_eq_map_of_mapM_eq_ok {ε α β γ : Type} {f : α → Except ε β} {g : β → γ} {k : α → γ}
    (hf : ∀ x y, f x = .ok y → g y = k x) {xs : List α} {ys : List β} (h : xs.mapM f = .ok ys) :
    ys.map g = xs.map k := by
  rw [mapM_eq_ok_iff] at h
  induction xs generalizing ys with
  | nil => simp_all
  | cons x xs ih =>
    cases ys with
    | nil => simp at h
    | cons y ys =>
      rw [List.map_cons, List.map_cons, List.cons.injEq] at h
      rw [List.map_cons, List.map_cons, hf x y h.1, ih h.2]

theorem mem_iff_of_mapM_eq_ok {ε α β : Type} {f : α → Except ε β} {xs : List α} {ys : List β}
    (h : xs.mapM f = .ok ys) {y : β} : y ∈ ys ↔ ∃ x ∈ xs, f x = .ok y := by
  rw [mapM_eq_ok_iff] at h
  rw [← List.mem_map, h]
  simp

theorem exists_of_mapM_eq_ok {ε α β : Type} {f : α → Except ε β} {xs : List α} {ys : List β}
    (h : xs.mapM f = .ok ys) {x : α} (hx : x ∈ xs) : ∃ y ∈ ys, f x = .ok y := by
  rw [mapM_eq_ok_iff] at h
  have hmem : f x ∈ ys.map .ok := by
    rw [← h]
    exact List.mem_map_of_mem hx
  obtain ⟨y, hy, hfx⟩ := List.mem_map.1 hmem
  exact ⟨y, hy, hfx.symm⟩

theorem mem_iff_of_flatten_mapM {ε α β : Type} {f : α → Except ε (List β)} {xs : List α}
    {ys : List β} (h : (do return (← xs.mapM f).flatten) = .ok ys) {y : β} :
    y ∈ ys ↔ ∃ x ∈ xs, ∃ part, f x = .ok part ∧ y ∈ part := by
  obtain ⟨parts, hparts, hys⟩ := bind_eq_ok_iff.1 h
  cases hys
  simp only [List.mem_flatten, mem_iff_of_mapM_eq_ok hparts]
  constructor
  . rintro ⟨part, ⟨x, hx, hpart⟩, hy⟩
    exact ⟨x, hx, part, hpart, hy⟩
  . rintro ⟨x, hx, part, hpart, hy⟩
    exact ⟨part, ⟨x, hx, hpart⟩, hy⟩

theorem exists_of_flatten_mapM {ε α β : Type} {f : α → Except ε (List β)} {xs : List α}
    {ys : List β} (h : (do return (← xs.mapM f).flatten) = .ok ys) {x : α} (hx : x ∈ xs) :
    ∃ part, f x = .ok part ∧ ∀ y ∈ part, y ∈ ys := by
  obtain ⟨parts, hparts, -⟩ := bind_eq_ok_iff.1 h
  obtain ⟨part, -, hpart⟩ := exists_of_mapM_eq_ok hparts hx
  refine ⟨part, hpart, ?_⟩
  intro y hy
  exact (mem_iff_of_flatten_mapM h).2 ⟨x, hx, part, hpart, hy⟩

theorem foldlM_eq_ok_foldl {ε σ α : Type} {f : σ → α → Except ε σ} {g : σ → α → σ} {xs : List α}
    (h : ∀ x ∈ xs, ∀ s, f s x = .ok (g s x)) (s : σ) : xs.foldlM f s = .ok (xs.foldl g s) := by
  induction xs generalizing s with
  | nil => rfl
  | cons x xs ih =>
    obtain ⟨hx, hrest⟩ := List.forall_mem_cons.1 h
    rw [List.foldlM_cons, hx, ok_bind, ih hrest, List.foldl_cons]

end IdlCompiler.Except
