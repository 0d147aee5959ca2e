/-
  Foundation/Prog.lean --- interruptible programs over a device.

  A program computes on a volatile state `σ`, asks a device for service through
  calls `C` (the reply to `c` has type `R c`), and ends with a value, with an
  error of type `ε`, or not at all: the device may be switched off during a
  call.  The syntax is a free monad, so that one program text can be run
  (`Foundation/Wp.lean`) against a device that works, one that reports errors
  and one that loses power.

  An error keeps the volatile state as it was when the error was raised.  That
  is the discipline of C code which returns an error code: what a function wrote
  before its early return stays written.
-/
import Mathlib.Logic.Basic

set_option autoImplicit false

namespace EdgeSync.Foundation

/-- Programs over calls `C` with replies `R`, volatile state `σ`, errors `ε`. -/
inductive Prog (C : Type) (R : C → Type) (σ ε : Type) (α : Type) : Type where
  /-- finished with a value -/
  | ret (value : α)
  /-- finished with an error -/
  | fail (err : ε)
  /-- look at the volatile state -/
  | look (k : σ → Prog C R σ ε α)
  /-- replace the volatile state -/
  | put (ram : σ) (k : Prog C R σ ε α)
  /-- ask the device and continue with its reply -/
  | call (c : C) (k : R c → Prog C R σ ε α)

namespace Prog

variable {C : Type} {R : C → Type} {σ ε α β γ : Type}

/-- Sequential composition; an error of the first program ends both. -/
def bind : Prog C R σ ε α → (α → Prog C R σ ε β) → Prog C R σ ε β
  | ret a, f => f a
  | fail e, _ => fail e
  | look k, f => look fun s => (k s).bind f
  | put s k, f => put s (k.bind f)
  | call c k, f => call c fun r => (k r).bind f

instance : Monad (Prog C R σ ε) where
  pure := ret
  bind := bind

@[simp] theorem pure_eq (a : α) : (pure a : Prog C R σ ε α) = ret a := rfl

@[simp] theorem bind_eq (x : Prog C R σ ε α) (f : α → Prog C R σ ε β) :
    x >>= f = x.bind f := rfl

/-- The volatile state. -/
def read : Prog C R σ ε σ := look ret

/-- Change the volatile state. -/
def modify (f : σ → σ) : Prog C R σ ε Unit := look fun s => put (f s) (ret ())

/-- One device call. -/
def ask (c : C) : Prog C R σ ε (R c) := call c ret

/-- Run a program for its effect and hand its error, if any, to the caller. -/
def attempt : Prog C R σ ε α → Prog C R σ ε (Except ε α)
  | ret a => ret (.ok a)
  | fail e => ret (.error e)
  | look k => look fun s => (k s).attempt
  | put s k => put s k.attempt
  | call c k => call c fun r => (k r).attempt

end Prog

end EdgeSync.Foundation
