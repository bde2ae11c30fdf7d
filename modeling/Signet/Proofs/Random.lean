import Mathlib.Tactic
import Signet.Key.Symmetric

/-!
What computations that draw from a tape come to.

* `Random.Gives`: a computation ends in a value or an error, and uses up so many bytes
  of the tape. Nothing else is observed of it.
* One law for each way to build a computation: `gives_pure`, `gives_draw`, `gives_liftState`,
  `gives_liftExcept`, and `Gives.bind` and `Gives.bind_error` for two steps in a row.
* `gives_mapM`: the same for the elements of a list, one after another.
-/

namespace Signet

/-- The tape when `n` more bytes are used up. -/
def Tape.advance (t : Tape) (n : ℕ) : Tape := { t with used := t.used + n }

lemma Tape.advance_advance (t : Tape) (n m : ℕ) :
    (t.advance n).advance m = t.advance (n + m) := by
  rw [advance, advance, advance, Nat.add_assoc]

namespace Random

variable {α β : Type}

/-- A computation ends in a value or an error and uses up `n` bytes of the tape. -/
def Gives (x : Random α) (t : Tape) (outcome : Except Error α) (n : ℕ) : Prop :=
  x.run.run t = (outcome, t.advance n)

variable {x : Random α} {f : α → Random β} {t : Tape} {n m : ℕ}

lemma gives_pure (a : α) (t : Tape) : Gives (pure a) t (.ok a) 0 := rfl

lemma gives_draw (n : ℕ) (t : Tape) : Gives (draw n) t (.ok (t.slice t.used n)) n := rfl

lemma gives_liftState {s : StateM Tape α} {a : α} (h : s.run t = (a, t.advance n)) :
    Gives (monadLift s) t (.ok a) n := by
  have hrun : (monadLift s : Random α).run = Except.ok <$> s := rfl
  rw [Gives, hrun, StateT.run_map, h]
  rfl

lemma gives_liftExcept (y : Except Error α) (t : Tape) :
    Gives (monadLift y : Random α) t y 0 := rfl

lemma Gives.bind {a : α} {outcome : Except Error β} (h : Gives x t (.ok a) n)
    (hf : Gives (f a) (t.advance n) outcome m) : Gives (x >>= f) t outcome (n + m) := by
  rw [Gives] at h hf
  rw [Gives, ExceptT.run_bind, StateT.run_bind, h]
  exact hf.trans (by rw [Tape.advance_advance])

lemma Gives.bind_error {e : Error} (h : Gives x t (.error e) n) :
    Gives (x >>= f) t (.error e) n := by
  rw [Gives] at h
  rw [Gives, ExceptT.run_bind, StateT.run_bind, h]
  rfl

/-- A computation ends in one way only. -/
lemma Gives.outcome_eq {outcome outcome' : Except Error α} (h : Gives x t outcome n)
    (h' : Gives x t outcome' m) : outcome = outcome' := by
  rw [Gives] at h h'
  exact congrArg Prod.fst (h.symm.trans h')

/-- What is computed for the elements of a list one after another is related to them one by one. -/
lemma gives_mapM {f : α → Random β} {P : α → β → Prop} {n : ℕ}
    (h : ∀ a t, ∃ b, (f a).Gives t (.ok b) n ∧ P a b) (l : List α) (t : Tape) :
    ∃ bs, (l.mapM f).Gives t (.ok bs) (n * l.length) ∧ List.Forall₂ P l bs := by
  induction l generalizing t with
  | nil => exact ⟨[], gives_pure _ _, .nil⟩
  | cons a l ih =>
      obtain ⟨b, hb, hab⟩ := h a t
      obtain ⟨bs, hbs, hrest⟩ := ih (t.advance n)
      refine ⟨b :: bs, ?_, .cons hab hrest⟩
      rw [List.mapM_cons, List.length_cons, Nat.mul_succ, Nat.add_comm]
      refine hb.bind ?_
      exact hbs.bind (m := 0) (gives_pure _ _)

end Random

end Signet
