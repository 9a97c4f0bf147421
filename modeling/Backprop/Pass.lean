/-! The three passes of a network, and a value for each of them. -/

namespace Backprop

inductive Pass where
  | forward
  | backward
  | update
deriving DecidableEq, Repr

namespace Pass

def all : List Pass := [forward, backward, update]

def name : Pass → String
  | forward => "forward"
  | backward => "backward"
  | update => "update"

end Pass

structure PerPass (β : Type) where
  forward : β
  backward : β
  update : β
deriving Inhabited

namespace PerPass

variable {β : Type}

def get (p : PerPass β) : Pass → β
  | .forward => p.forward
  | .backward => p.backward
  | .update => p.update

def modify (p : PerPass β) (pass : Pass) (f : β → β) : PerPass β :=
  match pass with
  | .forward => { p with forward := f p.forward }
  | .backward => { p with backward := f p.backward }
  | .update => { p with update := f p.update }

def replicate (b : β) : PerPass β := ⟨b, b, b⟩

@[simp] theorem get_modify_self (p : PerPass β) (pass : Pass) (f : β → β) :
    (p.modify pass f).get pass = f (p.get pass) := by
  cases pass <;> rfl

theorem get_modify_of_ne (p : PerPass β) {pass other : Pass} (f : β → β) (h : other ≠ pass) :
    (p.modify pass f).get other = p.get other := by
  cases pass <;> cases other <;> simp_all [modify, get]

end PerPass

end Backprop
