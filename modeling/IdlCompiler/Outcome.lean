import IdlCompiler.Diagnostic

/-!
This module contains computations that give warnings on the way and may fail. The warnings given
before a failure are kept.
-/

namespace IdlCompiler

structure Outcome (ε α : Type) where
  warnings : List Warning
  result : Except ε α

namespace Outcome

variable {ε ε' α β : Type}

def fail (e : ε) : Outcome ε α :=
  ⟨[], .error e⟩

def warn (w : Warning) : Outcome ε Unit :=
  ⟨[w], .ok ()⟩

def ofExcept (r : Except ε α) : Outcome ε α :=
  ⟨[], r⟩

def bind (x : Outcome ε α) (f : α → Outcome ε β) : Outcome ε β :=
  match x.result with
  | .ok a =>
    let y := f a
    ⟨x.warnings ++ y.warnings, y.result⟩
  | .error e => ⟨x.warnings, .error e⟩

instance : Monad (Outcome ε) where
  pure a := ⟨[], .ok a⟩
  bind := bind

instance : MonadLift (Except ε) (Outcome ε) where
  monadLift := ofExcept

def mapError (f : ε → ε') (x : Outcome ε α) : Outcome ε' α :=
  ⟨x.warnings, x.result.mapError f⟩

@[simp]
theorem warnings_pure (a : α) : (pure a : Outcome ε α).warnings = [] := rfl

@[simp]
theorem result_pure (a : α) : (pure a : Outcome ε α).result = .ok a := rfl

theorem result_bind (x : Outcome ε α) (f : α → Outcome ε β) :
    (x >>= f).result = x.result >>= fun a => (f a).result := by
  show (bind x f).result = _
  unfold bind
  cases x.result <;> rfl

end Outcome

end IdlCompiler
