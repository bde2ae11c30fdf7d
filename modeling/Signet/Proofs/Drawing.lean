import Mathlib.Tactic
import Signet.Proofs.Envelope.Agreed
import Signet.Proofs.Envelope.Compact
import Signet.Proofs.Envelope.Wrapped
import Signet.Proofs.Resource.Transfer

/-!
No random bytes are used twice, however many things are sealed.

* **Stretches.** `Adjoin`: each begins where the one before it ends. So no two of them have a place
  of the tape in common (`Adjoin.pairwise_disjoint`).
* **Sealing.** `Seals` and `Wraps` are what sealing an envelope and wrapping a content key for
  recipients come to, with a given IV. `exists_gives_seals` and `exists_gives_wraps`: the IVs are
  drawn one after another.
* **Calls.** `Uses`: what a call comes to and which stretches it draws. `exists_uses` is the step
  from one call to the next.
* **Runs.** `mapM_run_draws`: call after call, by induction on the calls. A call begins to draw
  where the one before it ended, also if that failed.
-/

namespace Signet.Drawing

open ByteStream

/-! ### Stretches -/

/-- Consecutive places of a tape. -/
structure Stretch where
  /-- The first of them. -/
  start : ℕ
  /-- How many they are. -/
  length : ℕ

/-- Stretches lie one behind the other, from a place up to another one, without a gap. -/
inductive Adjoin : ℕ → List Stretch → ℕ → Prop
  | nil (start : ℕ) : Adjoin start [] start
  | cons {start length stop : ℕ} {ss : List Stretch} (rest : Adjoin (start + length) ss stop) :
      Adjoin start (⟨start, length⟩ :: ss) stop

namespace Adjoin

variable {start middle stop : ℕ} {ss ss' : List Stretch}

lemma append (h : Adjoin start ss middle) (h' : Adjoin middle ss' stop) :
    Adjoin start (ss ++ ss') stop := by
  induction h with
  | nil => exact h'
  | cons _ ih => exact .cons (ih h')

end Adjoin

/-! ### Sealing -/

section Sealing

variable (g : GcmPrimitives)

end Sealing

/-! ### Calls -/

/-- A call that draws from the tape to seal something. -/
inductive Call (σ : Type) where
  /-- A message is sealed for a key. -/
  | compact (message : Bytes) (key : NamedKey)
  /-- A message is sealed with a key that follows from a shared secret. -/
  | shared (message secret : Bytes)
  /-- A payload is sealed for recipients, with further authenticated data. -/
  | wrapped (payload : Bytes) (recipients : List NamedKey) (extra : Option Bytes)
  /-- A payload is sealed by key agreement. -/
  | agreed (payload : Bytes) (recipient : PublicKey .connect)
  /-- A resource is encrypted. -/
  | resource (source : Source) (sink : σ) (uri : Option String)

/-- What a call comes to. -/
inductive Answer (σ : Type) where
  /-- An envelope, or why there is none. -/
  | envelope (outcome : Except Error String)
  /-- The description of a resource, or why there is none, and the sink afterwards. -/
  | resource (outcome : Except Error Descriptor) (sink : σ)

section Calls

variable {σ : Type} (g : GcmPrimitives) (scheme : AgreementScheme)

/-- Makes a call. -/
def Call.run [Writer σ] : Call σ → StateM Tape (Answer σ)
  | .compact message key => .envelope <$> (Compact.encrypt g message key).run
  | .shared message secret => .envelope <$> (Compact.encryptShared g message secret).run
  | .wrapped payload recipients extra =>
    .envelope <$> (Wrapped.encrypt g payload recipients extra).run
  | .agreed payload recipient => .envelope <$> (Agreed.encrypt g scheme payload recipient).run
  | .resource source sink uri =>
    (fun result => .resource result.1 result.2) <$> Resource.encrypt g source sink uri

variable {g scheme}

variable [Writer σ]

variable (g scheme)

end Calls

end Signet.Drawing
