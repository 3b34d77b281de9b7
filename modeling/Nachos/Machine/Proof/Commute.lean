import Nachos.Machine.Proof.Isolation

/-!
# What accesses do not look at

A translation looks at the tables only, and an access at the tables and at memory: in a machine with
other registers they do the same (`readMem_changed`, `writeMem_changed`).
-/

namespace Nachos.Machine

open Base

def changed (g : (Reg → Word) → Reg → Word) (h : Memory → Memory) (m : Machine) : Machine :=
  { m with registers := g m.registers, mainMemory := h m.mainMemory }

variable {g : (Reg → Word) → Reg → Word} {h : Memory → Memory}

theorem assertM_commutes (c : Machine → Machine) (p : Prop) [Decidable p] :
    Commutes c (assertM p) :=
  Commutes.ite (Commutes.pure _) (Commutes.throw _)

theorem useEntry_changed {e : TranslationEntry} {update : TranslationEntry → Machine → Machine}
    (hu : ∀ e m, update e (changed g h m) = changed g h (update e m)) (offset size : Nat)
    (writing : Bool) : Commutes (changed g h) (useEntry e update offset size writing) := by
  unfold useEntry
  refine Commutes.ite (Commutes.pure _) (Commutes.ite (Commutes.pure _) ?_)
  refine Commutes.bind (Commutes.modify (hu _)) fun _ => ?_
  exact Commutes.bind (assertM_commutes _ _) fun _ => Commutes.pure _

theorem translate_changed (virtAddr : Word) (size : Nat) (writing : Bool) :
    Commutes (changed g h) (translate virtAddr size writing) := by
  unfold translate
  refine Commutes.ite (Commutes.pure _) (Commutes.get_bind (fun _ => rfl) fun m => ?_)
  refine Commutes.bind (assertM_commutes _ _) fun _ => Commutes.bind (assertM_commutes _ _) fun _ => ?_
  cases m.tlb with
  | none =>
    refine Commutes.ite (Commutes.pure _) ?_
    cases (m.pageTable.getD [])[virtAddr.toNat / pageSize]? with
    | none => exact Commutes.throw _
    | some e =>
      refine Commutes.ite (Commutes.pure _) (useEntry_changed (fun _ _ => ?_) _ _ _)
      rfl
  | some tlb =>
    dsimp only
    split
    · exact Commutes.pure _
    · split
      · exact Commutes.throw _
      · refine useEntry_changed (fun _ _ => ?_) _ _ _
        rfl

theorem liftFault_commutes (c : Machine → Machine) {α : Type} (x : Except Fault α) :
    Commutes c (liftFault x) := by
  cases x with
  | ok a => exact Commutes.pure a
  | error f => exact Commutes.throw _

theorem readMem_changed (cfg : Build) (addr : Word) (size : Nat) :
    Commutes (changed g id) (readMem cfg addr size) := by
  refine Commutes.bind (translate_changed addr size false) fun r => ?_
  cases r with
  | error e => exact Commutes.throw _
  | ok p => exact Commutes.get_bind (fun _ => rfl) fun m => liftFault_commutes _ _

theorem writeMem_changed (cfg : Build) (addr : Word) (size : Nat) (value : Word) :
    Commutes (changed g id) (writeMem cfg addr size value) := by
  refine Commutes.bind (translate_changed addr size true) fun r => ?_
  cases r with
  | error e => exact Commutes.throw _
  | ok p => exact Commutes.bind (liftFault_commutes _ _) fun bytes => Commutes.modify fun m => rfl

end Nachos.Machine
