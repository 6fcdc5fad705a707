import IdlCompiler.Text.Glyph

/-!
This module contains how the characters of a file stand to its bytes: a byte that is a character of
its own divides the characters of the file, and no other byte reads as a line break than its own.
-/

namespace IdlCompiler.Text.Glyph

variable {a b : UInt8} {g : Glyph} {bytes rest : List UInt8}

theorem first?_cases (h : first? (a :: bytes) = some g) :
    g = ⟨Char.ofNat a.toNat, 1⟩ ∨
      ∃ n, g.char = Char.ofNat n ∧ 0x7F < n ∧ 0 < g.size ∧ g.size ≤ bytes.length + 1 := by
  unfold first? at h
  simp only [Bool.and_eq_true, Bool.or_eq_true, bne_iff_ne, decide_eq_true_eq,
    UInt8.le_iff_toNat_le, ← UInt8.toNat_inj, Ne, UInt8.reduceToNat] at h
  split at h
  . cases h
    exact .inl rfl
  . right
    split at h
    . -- two bytes
      split at h
      . split at h
        . cases h
          exact ⟨_, rfl, by omega, Nat.succ_pos _, by simp⟩
        . cases h
      . cases h
    . split at h
      . -- three bytes
        split at h
        . split at h
          . cases h
            exact ⟨_, rfl, by omega, Nat.succ_pos _, by simp⟩
          . cases h
        . cases h
      . split at h
        . -- four bytes
          split at h
          . split at h
            . cases h
              exact ⟨_, rfl, by omega, Nat.succ_pos _, by simp⟩
            . cases h
          . cases h
        . cases h

theorem size_le_of_first? (h : first? (a :: bytes) = some g) : g.size ≤ bytes.length + 1 := by
  rcases first?_cases h with rfl | ⟨_, -, -, -, hsize⟩
  . exact Nat.le_add_left 1 _
  . exact hsize

theorem size_pos_of_first? (h : first? (a :: bytes) = some g) : 0 < g.size := by
  rcases first?_cases h with rfl | ⟨_, -, -, hsize, -⟩
  . exact Nat.one_pos
  . exact hsize

theorem ofNat_eq_newline_iff {n : Nat} : Char.ofNat n = '\n' ↔ n = 0x0A := by
  constructor
  . intro h
    by_cases hvalid : n.isValidChar
    . rw [Char.ofNat, dif_pos hvalid] at h
      exact congrArg Char.toNat h
    . rw [Char.ofNat, dif_neg hvalid] at h
      cases h
  . rintro rfl
    rfl

theorem char_ne_newline_of_first? (h : first? (a :: bytes) = some g) (ha : a ≠ 0x0A) :
    g.char ≠ '\n' := by
  rcases first?_cases h with rfl | ⟨n, hchar, hlarge, -⟩
  . rw [Ne, ofNat_eq_newline_iff]
    intro hcode
    exact ha (UInt8.toNat_inj.1 hcode)
  . rw [hchar, Ne, ofNat_eq_newline_iff]
    omega

theorem first?_append_cons (hb : b ≤ 0x7F) (a : UInt8) (bytes rest : List UInt8) :
    first? (a :: (bytes ++ b :: rest)) = first? (a :: bytes) := by
  have htail : ¬0x80 ≤ b := by
    simp only [UInt8.le_iff_toNat_le, UInt8.reduceToNat] at hb ⊢
    omega
  unfold first?
  rcases bytes with _ | ⟨x, _ | ⟨y, _ | ⟨z, bytes⟩⟩⟩
  . rcases rest with _ | ⟨x, _ | ⟨y, rest⟩⟩ <;> simp [htail]
  . rcases rest with _ | ⟨x, rest⟩ <;> simp [htail]
  . simp [htail]
  . rfl

theorem ofBytes_go_eq (acc : List Glyph) (bytes : List UInt8) :
    ofBytes.go acc bytes = acc.reverse ++ ofBytes bytes := by
  unfold ofBytes
  induction hn : bytes.length using Nat.strongRecOn generalizing acc bytes with
  | ind n ih =>
    cases bytes with
    | nil => simp [ofBytes.go]
    | cons b rest =>
      rw [List.length_cons] at hn
      rw [ofBytes.go, ofBytes.go]
      split
      . next g hg =>
        have hdrop := List.length_drop (l := rest) (i := g.size - 1)
        rw [ih _ (by omega) (g :: acc) _ rfl, ih _ (by omega) [g] _ rfl]
        simp
      . rw [ih _ (by omega) (replacement :: acc) rest rfl, ih _ (by omega) [replacement] rest rfl]
        simp

theorem ofBytes_nil : ofBytes [] = [] := by
  rw [ofBytes, ofBytes.go]
  rfl

theorem ofBytes_cons_of_some (h : first? (b :: rest) = some g) :
    ofBytes (b :: rest) = g :: ofBytes (rest.drop (g.size - 1)) := by
  rw [ofBytes, ofBytes.go, h]
  exact ofBytes_go_eq [g] _

theorem ofBytes_cons_of_none (h : first? (b :: rest) = none) :
    ofBytes (b :: rest) = replacement :: ofBytes rest := by
  rw [ofBytes, ofBytes.go, h]
  exact ofBytes_go_eq [replacement] rest

theorem ofBytes_ne_nil (h : bytes ≠ []) : ofBytes bytes ≠ [] := by
  cases bytes with
  | nil => exact absurd rfl h
  | cons b rest =>
    cases hfirst : first? (b :: rest) with
    | none =>
      rw [ofBytes_cons_of_none hfirst]
      exact List.cons_ne_nil _ _
    | some g =>
      rw [ofBytes_cons_of_some hfirst]
      exact List.cons_ne_nil _ _

theorem ofBytes_append_cons (hb : b ≤ 0x7F) (bytes rest : List UInt8) :
    ofBytes (bytes ++ b :: rest) = ofBytes bytes ++ ⟨Char.ofNat b.toNat, 1⟩ :: ofBytes rest := by
  induction hn : bytes.length using Nat.strongRecOn generalizing bytes with
  | ind n ih =>
    cases bytes with
    | nil =>
      have hfirst : first? (b :: rest) = some ⟨Char.ofNat b.toNat, 1⟩ := if_pos hb
      rw [List.nil_append, ofBytes_cons_of_some hfirst, ofBytes_nil]
      rfl
    | cons a bytes =>
      rw [List.length_cons] at hn
      have hfirst := first?_append_cons hb a bytes rest
      rw [List.cons_append]
      cases h : first? (a :: bytes) with
      | none =>
        rw [ofBytes_cons_of_none (hfirst.trans h), ofBytes_cons_of_none h,
          ih bytes.length (by omega) bytes rfl, List.cons_append]
      | some g =>
        -- All bytes of the character stand before the dividing one.
        have hsize := size_le_of_first? h
        have hdrop := List.length_drop (l := bytes) (i := g.size - 1)
        rw [ofBytes_cons_of_some (hfirst.trans h), ofBytes_cons_of_some h,
          List.drop_append_of_le_length (by omega), ih _ (by omega) _ rfl, List.cons_append]

theorem char_ne_newline_of_mem_ofBytes (h : 0x0A ∉ bytes) : ∀ g ∈ ofBytes bytes, g.char ≠ '\n' := by
  induction hn : bytes.length using Nat.strongRecOn generalizing bytes with
  | ind n ih =>
    cases bytes with
    | nil => simp [ofBytes_nil]
    | cons a bytes =>
      rw [List.length_cons] at hn
      rw [List.mem_cons, not_or] at h
      cases hfirst : first? (a :: bytes) with
      | none =>
        rw [ofBytes_cons_of_none hfirst, List.forall_mem_cons]
        exact ⟨by decide, ih bytes.length (by omega) h.2 rfl⟩
      | some g =>
        have hdrop := List.length_drop (l := bytes) (i := g.size - 1)
        rw [ofBytes_cons_of_some hfirst, List.forall_mem_cons]
        refine ⟨char_ne_newline_of_first? hfirst (Ne.symm h.1), ih _ (by omega) ?_ rfl⟩
        intro hmem
        exact h.2 (List.mem_of_mem_drop hmem)

end IdlCompiler.Text.Glyph
