import Mathlib.Tactic
import Signet.Proofs.Json.Lookup
import Signet.Proofs.Json.Written
import Signet.Proofs.Text.Padding
import Signet.Resource.Descriptor

/-!
Descriptors of resources survive being written and read.

* `members`: the members that a descriptor is written as, and their look-up.
* `ofText_toText`: reading gives the same descriptor.
* **What is read.** `Says`: an object holds a descriptor, which it may spell with padding, and with
  a place that is `null`. `ofText_eq_ok_iff`: exactly these objects are read, so that which texts
  are read at all is said without a descriptor (`Describes`).
* `read_written`: what is written is read back, and what was read is written as the same but for
  padding (`SpellsAlike`).
-/

namespace Signet.Descriptor

open Json.Members

/-- The members that a descriptor is written as. -/
def members (d : Descriptor) : Json.Members :=
  [("iv", .str (Base64.encode d.iv.toList)), ("k", .str (Base64.encode d.key.toList)),
    ("tag", .str (Base64.encode d.tag.toList))]
    ++ (d.uri.map fun uri => ("uri", .str uri)).toList

lemma toText_eq (d : Descriptor) : d.toText = Json.compact (.obj d.members) := by
  rw [toText, toJson, members]
  cases d.uri <;> rfl

lemma parseObject_toText (d : Descriptor) :
    Json.parseObject d.toText = .ok (ofList d.members) := by
  have hstrings : ∀ m ∈ d.members, ∃ text, m.2 = .str text := by
    rw [members]
    cases d.uri <;> simp
  rw [toText_eq]
  refine Json.parseObject_compact hstrings fun m hm => ?_
  cases hm
  show "iv" ≠ Json.numberName
  decide

lemma get?_members (d : Descriptor) :
    get? "iv" (ofList d.members) = some (.str (Base64.encode d.iv.toList))
      ∧ get? "k" (ofList d.members) = some (.str (Base64.encode d.key.toList))
      ∧ get? "tag" (ofList d.members) = some (.str (Base64.encode d.tag.toList))
      ∧ get? "uri" (ofList d.members) = d.uri.map .str := by
  rw [members]
  cases d.uri <;> simp [ofList, get?_insert_self, get?_insert_of_ne]

/-! ### What is read -/

/-- The place of a resource in an object, which has none if the member is absent or `null`. -/
def HasPlace (ms : Json.Members) (uri : Option String) : Prop :=
  (ms.get? "uri" = none ∨ ms.get? "uri" = some .null) ∧ uri = none
    ∨ ∃ text, ms.get? "uri" = some (.str text) ∧ uri = some text

/-- An object holds a descriptor. -/
structure Says (ms : Json.Members) (d : Descriptor) : Prop where
  /-- It spells out the IV. -/
  iv : ms.HasBytes "iv" d.iv.toList
  /-- It spells out the key. -/
  key : ms.HasBytes "k" d.key.toList
  /-- It spells out the tag. -/
  tag : ms.HasBytes "tag" d.tag.toList
  /-- It has the place. -/
  place : HasPlace ms d.uri

/-- An object has all that a descriptor needs: twelve, thirty-two and sixteen bytes, and no place or
one that is a string. -/
structure Describes (ms : Json.Members) : Prop where
  /-- There is an IV. -/
  iv : ∃ bytes, ms.HasBytes "iv" bytes ∧ bytes.length = 12
  /-- There is a key. -/
  key : ∃ bytes, ms.HasBytes "k" bytes ∧ bytes.length = 32
  /-- There is a tag. -/
  tag : ∃ bytes, ms.HasBytes "tag" bytes ∧ bytes.length = 16
  /-- The place is absent, `null` or a string. -/
  place : ms.get? "uri" = none ∨ ms.get? "uri" = some .null
    ∨ ∃ text, ms.get? "uri" = some (.str text)

variable {text : String} {ms : Json.Members} {d : Descriptor}

/-- **A text is read as a descriptor if it is an object that holds it.** -/
theorem ofText_eq_ok_iff :
    ofText text = .ok d ↔ ∃ ms, Json.parse text = .ok (.obj ms) ∧ Says ms d := by
  simp only [ofText, Except.bind_eq_ok_iff, Json.parseObject_eq_ok_iff, requireFixed_eq_ok_iff,
    optionalText_eq_ok_iff, Except.pure_eq_ok_iff]
  constructor
  · rintro ⟨ms, hms, iv, hiv, key, hkey, tag, htag, uri, huri, rfl⟩
    exact ⟨ms, hms, hiv, hkey, htag, huri⟩
  · rintro ⟨ms, hms, h⟩
    exact ⟨ms, hms, d.iv, h.iv, d.key, h.key, d.tag, h.tag, d.uri, h.place, rfl⟩

/-- An object holds a descriptor if it has all that one needs. -/
lemma exists_says_iff : (∃ d, Says ms d) ↔ Describes ms := by
  constructor
  · rintro ⟨d, h⟩
    refine ⟨⟨_, h.iv, d.iv.length_eq⟩, ⟨_, h.key, d.key.length_eq⟩, ⟨_, h.tag, d.tag.length_eq⟩, ?_⟩
    obtain ⟨hnone | hnull, -⟩ | ⟨uri, huri, -⟩ := h.place
    · exact .inl hnone
    · exact .inr (.inl hnull)
    · exact .inr (.inr ⟨uri, huri⟩)
  · rintro ⟨⟨iv, hiv, hlength⟩, ⟨key, hkey, hlength'⟩, ⟨tag, htag, hlength''⟩, hplace⟩
    have hsays (uri : Option String) (huri : HasPlace ms uri) :
        Says ms ⟨⟨iv, hlength⟩, ⟨key, hlength'⟩, ⟨tag, hlength''⟩, uri⟩ := ⟨hiv, hkey, htag, huri⟩
    obtain hnone | hnull | ⟨uri, huri⟩ := hplace
    · exact ⟨_, hsays none (.inl ⟨.inl hnone, rfl⟩)⟩
    · exact ⟨_, hsays none (.inl ⟨.inr hnull, rfl⟩)⟩
    · exact ⟨_, hsays (some uri) (.inr ⟨uri, huri, rfl⟩)⟩

/-! ### What is written -/

/-- The members that a descriptor is written as hold it. -/
lemma says_members (d : Descriptor) : Says (ofList d.members) d := by
  obtain ⟨hiv, hkey, htag, huri⟩ := get?_members d
  refine ⟨⟨_, hiv, Base64.decode_encode _⟩, ⟨_, hkey, Base64.decode_encode _⟩,
    ⟨_, htag, Base64.decode_encode _⟩, ?_⟩
  rw [HasPlace, huri]
  cases d.uri <;> simp

/-- **A descriptor that was written is read back.** -/
theorem ofText_toText (d : Descriptor) : ofText d.toText = .ok d :=
  ofText_eq_ok_iff.mpr
    ⟨_, Json.parseObject_eq_ok_iff.mp (parseObject_toText d), says_members d⟩

/-- Of places that are given one after another the last one counts. -/
lemma foldl_withUri (d : Descriptor) (uris : List (Option String)) :
    uris.foldl withUri d = d.withUri (uris.getLast?.getD d.uri) := by
  induction uris using List.reverseRecOn with
  | nil => rfl
  | append_singleton uris uri ih =>
      rw [List.foldl_append, ih, List.getLast?_append]
      rfl

/-- Two objects have a member that is the same text, but for padding at the end of the first. -/
def SpellsAlike (ms ms' : Json.Members) (name : String) : Prop :=
  ∃ written n, ms.get? name = some (.str (Base64.padded written n))
    ∧ ms'.get? name = some (.str written)

lemma spellsAlike_of_hasBytes {ms' : Json.Members} {name : String} {bytes : Bytes}
    (h : ms.HasBytes name bytes) (h' : ms'.get? name = some (.str (Base64.encode bytes))) :
    SpellsAlike ms ms' name := by
  obtain ⟨text, htext, hdecode⟩ := h
  obtain ⟨n, -, rfl⟩ := Base64.decode_eq_ok_iff.mp hdecode
  exact ⟨_, n, htext, h'⟩

/-- **A descriptor is read from what it is written as, and from any object that holds it.** Whatever
place it was given last is read back with it. Which texts are read depends only on the bytes that
their members spell out and on the type of the place. What was read is written without padding, with
the place if there was one, and writing it once more changes nothing. -/
theorem read_written (text : String) (d : Descriptor) (uris : List (Option String)) :
    ofText (uris.foldl withUri d).toText = .ok (d.withUri (uris.getLast?.getD d.uri))
      ∧ (ofText text = .ok d ↔ ∃ ms, Json.parse text = .ok (.obj ms) ∧ Says ms d)
      ∧ ((∃ d, ofText text = .ok d) ↔ ∃ ms, Json.parse text = .ok (.obj ms) ∧ Describes ms)
      ∧ (ofText text = .ok d →
        (ofText d.toText).map toText = .ok d.toText
          ∧ ∃ ms ms' : Json.Members, Json.parse text = .ok (.obj ms)
            ∧ Json.parse d.toText = .ok (.obj ms')
            ∧ (∀ name ∈ ["iv", "k", "tag"], SpellsAlike ms ms' name)
            ∧ ms'.get? "uri" = d.uri.map .str) := by
  refine ⟨?_, ofText_eq_ok_iff, ?_, fun hread => ⟨?_, ?_⟩⟩
  · rw [ofText_toText, foldl_withUri]
  · simp only [ofText_eq_ok_iff, ← exists_says_iff]
    exact ⟨fun ⟨d, ms, hms, h⟩ => ⟨ms, hms, d, h⟩, fun ⟨ms, hms, d, h⟩ => ⟨d, ms, hms, h⟩⟩
  · rw [ofText_toText]
    rfl
  · obtain ⟨ms, hms, h⟩ := ofText_eq_ok_iff.mp hread
    obtain ⟨hiv, hkey, htag, huri⟩ := get?_members d
    refine ⟨ms, _, hms, Json.parseObject_eq_ok_iff.mp (parseObject_toText d), ?_, huri⟩
    simp only [List.forall_mem_cons]
    exact ⟨spellsAlike_of_hasBytes h.iv hiv, spellsAlike_of_hasBytes h.key hkey,
      spellsAlike_of_hasBytes h.tag htag, by simp⟩

end Signet.Descriptor
