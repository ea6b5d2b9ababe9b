import AexKernel.Lib.Bindings
import AexKernel.Mem.Pool

/- The calls of the two kinds of lists, `klist` and `kslist`. The keys of one are
   indices and those of the other names; values are pointers, of which NULL unbinds.
   A call that needs a new entry has its block from the heap, and an iteration is a
   variable of its caller. -/
namespace Aex.Klist
open Mem

/-- A call. `start` is a caller that sets its variable to NULL. -/
inductive ListCall (κ : Type) where
  | set (key : κ) (ptr : Option Nat) (block : KernelAddr)
  | get (key : κ)
  | start (var : Nat)
  | iter (var : Nat)

/-- What it does to the map. -/
def ListCall.spec {κ : Type} : ListCall κ → Bindings.Call κ Nat
  | .set key ptr _ => .set key ptr
  | .get key => .get key
  | .start var => .start var
  | .iter var => .iter var

/-- The heap gives no block that is in use. -/
def ListCall.Served {κ : Type} (live : List KernelAddr) : ListCall κ → Prop
  | .set _ _ block => block ∉ live
  | _ => True

instance {κ : Type} (live : List KernelAddr) (call : ListCall κ) : Decidable (call.Served live) := by
  cases call <;> unfold ListCall.Served <;> infer_instance

/-- What was promised was given. -/
def Kept (promised : Option (Bindings.Answer Nat)) (given : Bindings.Answer Nat) : Prop :=
  ∀ answer, promised = some answer → given = answer

theorem kept_append {promised : List (Option (Bindings.Answer Nat))} {given : List (Bindings.Answer Nat)} (h : List.Forall₂ Kept promised given)
    {p : Option (Bindings.Answer Nat)} {g : Bindings.Answer Nat} (hlast : Kept p g) : List.Forall₂ Kept (promised ++ [p]) (given ++ [g]) :=
  List.rel_append h (.cons hlast .nil)

theorem kept_same (answer : Bindings.Answer Nat) : Kept (some answer) answer := fun _ h => Option.some.inj h

theorem kept_middle {promised more : List (Option (Bindings.Answer Nat))} {p : Option (Bindings.Answer Nat)} {g : Bindings.Answer Nat}
    {rest : List (Bindings.Answer Nat)} : ∀ {given : List (Bindings.Answer Nat)}, promised.length = given.length →
    List.Forall₂ Kept (promised ++ p :: more) (given ++ g :: rest) → Kept p g := by
  induction promised with
  | nil =>
    intro given hlen h
    have hnil : given = [] := List.length_eq_zero_iff.mp hlen.symm
    subst hnil
    cases h with
    | cons hkept _ => exact hkept
  | cons q promised ih =>
    intro given hlen h
    cases given with
    | nil => cases hlen
    | cons k given =>
      cases h with
      | cons _ htail => exact ih (Nat.succ.inj hlen) htail

end Aex.Klist
