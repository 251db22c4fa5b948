import Mathlib.Init

/-!
# Computations with assertions

`Checked α` is a value together with whether every assertion on the way to it
held. The value is what the computation gives when assertions do nothing; the
flag tells whether the computation would have been stopped by one. What is said with
assertions taken as no-ops is about `val`, and that none fails is about `ok`.
-/

namespace FileSync.Lib

universe u

/-- A value, and whether every assertion on the way to it held. -/
@[ext]
structure Checked (α : Type u) where
  /-- The value, with assertions doing nothing. -/
  val : α
  /-- Whether every assertion held. -/
  ok : Bool

namespace Checked

variable {α β : Type u}

/-- Assert a condition. -/
def assert (p : Bool) : Checked Unit := ⟨(), p⟩

instance : Monad Checked where
  pure a := ⟨a, true⟩
  bind x f := ⟨(f x.val).val, x.ok && (f x.val).ok⟩

@[simp] theorem val_pure (a : α) : (pure a : Checked α).val = a := rfl

@[simp] theorem ok_pure (a : α) : (pure a : Checked α).ok = true := rfl

@[simp] theorem val_bind (x : Checked α) (f : α → Checked β) : (x >>= f).val = (f x.val).val := rfl

@[simp] theorem ok_bind (x : Checked α) (f : α → Checked β) :
    (x >>= f).ok = (x.ok && (f x.val).ok) := rfl

@[simp] theorem ok_assert (p : Bool) : (assert p).ok = p := rfl

end Checked

end FileSync.Lib
