import Mathlib.Tactic
import Signet.Proofs.Envelope.Compact
import Signet.Proofs.Json.Lookup

/-!
Compact envelopes that are flawed, whatever keys there are.

* **Contents.** `FlawedContents`: what a header lacks, or what does not fit the parts beside it,
  in the order in which it is looked at. `ofParts_eq_error_iff`: each flaw has its error.
* **Envelopes.** `Flawed` adds what comes before: the number of the parts, their base64 and the text
  of the header. `parse_eq_error_iff`: reading fails on these and on no others.
* `decrypt_classified`: an envelope is flawed, and then no provider of keys makes a difference, or
  it is not, and then the key that it names decides.
-/

namespace Signet

/-- Whether an error says that a text has not the form that it should have. -/
def Error.isAboutForm : Error → Bool
  | badEnvelope _ | badBase64 _ | badUtf8 _ _ | badJson _ | missingMember _ | wrongType _
  | unsupportedAlgorithm _ | badLength _ _ _ => true
  | _ => false

lemma Json.Members.Lacks.isAboutForm {α : Type} {read : Json → Option α} {ms : Json.Members}
    {name : String} {e : Error} (h : Lacks read ms name e) : e.isAboutForm = true := by
  cases h <;> rfl

lemma Json.NoObject.isAboutForm {text : String} {e : Error} (h : NoObject text e) :
    e.isAboutForm = true := by
  cases h <;> rfl

lemma Sealed.Misfit.isAboutForm {iv tag : Bytes} {e : Error} (h : Misfit iv tag e) :
    e.isAboutForm = true := by
  cases h <;> rfl

namespace Compact

open Json.Members (Lacks requireText_eq_ok_iff requireText_eq_error_iff contains_eq_false_iff)

/-! ### Contents -/

/-- A header is no object that names the algorithm, the cipher and a key, each as a string. -/
inductive Nameless (header : String) : Error → Prop
  /-- It is no object. -/
  | noObject {e : Error} (noObject : Json.NoObject header e) : Nameless header e
  /-- It does not name the algorithm. -/
  | algorithm {ms : Json.Members} {e : Error} (object : Json.parse header = .ok (.obj ms))
      (lacks : Lacks Json.text? ms "alg" e) : Nameless header e
  /-- It does not name the cipher. -/
  | encryption {ms : Json.Members} {algorithm : String} {e : Error}
      (object : Json.parse header = .ok (.obj ms))
      (algorithm : ms.get? "alg" = some (.str algorithm)) (lacks : Lacks Json.text? ms "enc" e) :
      Nameless header e
  /-- It does not name a key. -/
  | keyId {ms : Json.Members} {algorithm encryption : String} {e : Error}
      (object : Json.parse header = .ok (.obj ms))
      (algorithm : ms.get? "alg" = some (.str algorithm))
      (encryption : ms.get? "enc" = some (.str encryption))
      (lacks : Lacks Json.text? ms "kid" e) : Nameless header e

lemma Nameless.isAboutForm {header : String} {e : Error} (h : Nameless header e) :
    e.isAboutForm = true := by
  cases h with
  | noObject h => exact h.isAboutForm
  | algorithm _ lacks => exact lacks.isAboutForm
  | encryption _ _ lacks => exact lacks.isAboutForm
  | keyId _ _ _ lacks => exact lacks.isAboutForm

/-- A header is an object that names an algorithm, a cipher and a key. -/
structure Names (header : String) (ms : Json.Members) (algorithm encryption keyId : String) :
    Prop where
  /-- It is an object. -/
  object : Json.parse header = .ok (.obj ms)
  /-- The algorithm. -/
  algorithm : ms.get? "alg" = some (.str algorithm)
  /-- The cipher. -/
  encryption : ms.get? "enc" = some (.str encryption)
  /-- The key. -/
  keyId : ms.get? "kid" = some (.str keyId)

/-- The parts of an envelope do not fit together. -/
inductive FlawedContents (header : String) (encryptedKey iv tag : Bytes) : Error → Prop
  /-- The header does not name all that it has to. -/
  | nameless {e : Error} (nameless : Nameless header e) :
      FlawedContents header encryptedKey iv tag e
  /-- It names another algorithm or another cipher. -/
  | unsupported {ms : Json.Members} {algorithm encryption keyId : String}
      (names : Names header ms algorithm encryption keyId)
      (other : algorithm ≠ "dir" ∨ encryption ≠ "A256GCM") :
      FlawedContents header encryptedKey iv tag
        (.unsupportedAlgorithm (algorithm ++ "/" ++ encryption))
  /-- There is an encrypted key. -/
  | encryptedKey {ms : Json.Members} {keyId : String}
      (names : Names header ms "dir" "A256GCM" keyId) (present : encryptedKey ≠ []) :
      FlawedContents header encryptedKey iv tag (.badEnvelope .encryptedKey)
  /-- The header has further authenticated data. -/
  | headerAad {ms : Json.Members} {keyId : String}
      (names : Names header ms "dir" "A256GCM" keyId) (noKey : encryptedKey = [])
      (present : ms.get? "aad" ≠ none) :
      FlawedContents header encryptedKey iv tag (.badEnvelope .headerAad)
  /-- The IV or the tag has not its size. -/
  | misfit {ms : Json.Members} {keyId : String} {e : Error}
      (names : Names header ms "dir" "A256GCM" keyId) (noKey : encryptedKey = [])
      (noAad : ms.get? "aad" = none) (misfit : Sealed.Misfit iv tag e) :
      FlawedContents header encryptedKey iv tag e

lemma FlawedContents.isAboutForm {header : String} {encryptedKey iv tag : Bytes} {e : Error}
    (h : FlawedContents header encryptedKey iv tag e) : e.isAboutForm = true := by
  cases h with
  | nameless h => exact h.isAboutForm
  | misfit _ _ _ h => exact h.isAboutForm
  | _ => rfl

/-- Parts that are refused do not fit together. -/
lemma flawedContents_of_ofParts {header : String} {encryptedKey iv ciphertext tag : Bytes}
    {e : Error} (h : ofParts header encryptedKey iv ciphertext tag = .error e) :
    FlawedContents header encryptedKey iv tag e := by
  simp only [ofParts, Except.bind_eq_error_iff, Json.parseObject_eq_error_iff,
    Json.parseObject_eq_ok_iff, requireText_eq_error_iff, requireText_eq_ok_iff] at h
  obtain h | ⟨ms, hms, h | ⟨alg, halg, h | ⟨enc, henc, h | ⟨id, hid, h⟩⟩⟩⟩ := h
  · exact .nameless (.noObject h)
  · exact .nameless (.algorithm hms h)
  · exact .nameless (.encryption hms halg h)
  · exact .nameless (.keyId hms halg henc h)
  have hnames : Names header ms alg enc id := ⟨hms, halg, henc, hid⟩
  split_ifs at h with hother hkey haad
  · cases h
    exact .unsupported hnames hother
  all_goals
    rw [not_or, not_not, not_not] at hother
    obtain ⟨rfl, rfl⟩ := hother
  · cases h
    exact .encryptedKey hnames hkey
  · cases h
    refine .headerAad hnames (not_not.mp hkey) fun hnone => ?_
    rw [contains_eq_false_iff.mpr hnone] at haad
    cases haad
  · have hnone := contains_eq_false_iff.mp (Bool.eq_false_iff.mpr haad)
    obtain h | ⟨s, -, h⟩ := Except.bind_eq_error_iff.mp h
    · exact .misfit hnames (not_not.mp hkey) hnone (Sealed.ofParts_eq_error_iff.mp h)
    · cases h

/-- Parts that do not fit together are refused for the first thing that does not fit. -/
lemma ofParts_of_flawedContents {header : String} {encryptedKey iv tag : Bytes} {e : Error}
    (h : FlawedContents header encryptedKey iv tag e) (ciphertext : Bytes) :
    ofParts header encryptedKey iv ciphertext tag = .error e := by
  simp only [ofParts, Except.bind_eq_error_iff, Json.parseObject_eq_error_iff,
    Json.parseObject_eq_ok_iff, requireText_eq_error_iff, requireText_eq_ok_iff]
  obtain h | ⟨hnames, hother⟩ | ⟨hnames, hkey⟩ | ⟨hnames, hkey, haad⟩ | ⟨hnames, hkey, haad, h⟩ := h
  · obtain h | ⟨hms, h⟩ | ⟨hms, halg, h⟩ | ⟨hms, halg, henc, h⟩ := h
    · exact .inl h
    · exact .inr ⟨_, hms, .inl h⟩
    · exact .inr ⟨_, hms, .inr ⟨_, halg, .inl h⟩⟩
    · exact .inr ⟨_, hms, .inr ⟨_, halg, .inr ⟨_, henc, .inl h⟩⟩⟩
  all_goals
    refine .inr ⟨_, hnames.object, .inr ⟨_, hnames.algorithm, .inr ⟨_, hnames.encryption,
      .inr ⟨_, hnames.keyId, ?_⟩⟩⟩⟩
  · exact if_pos hother
  all_goals rw [if_neg (by decide)]
  · rw [if_pos hkey]
    rfl
  all_goals rw [if_neg (not_not.mpr hkey)]
  · have hcontains := mt contains_eq_false_iff.mp haad
    rw [if_pos (Bool.not_eq_false _ |>.mp hcontains)]
    rfl
  · rw [contains_eq_false_iff.mpr haad]
    exact Except.bind_eq_error_iff.mpr (.inl (Sealed.ofParts_eq_error_iff.mpr h))

lemma ofParts_eq_error_iff {header : String} {encryptedKey iv ciphertext tag : Bytes} {e : Error} :
    ofParts header encryptedKey iv ciphertext tag = .error e
      ↔ FlawedContents header encryptedKey iv tag e :=
  ⟨flawedContents_of_ofParts, fun h => ofParts_of_flawedContents h ciphertext⟩

/-! ### Envelopes -/

/-- The first of several fields that is no base64. -/
inductive NotBase64 : List String → Error → Prop
  /-- It comes first. -/
  | here {f : String} {fs : List String} {fault : Base64.Fault}
      (invalid : Base64.decode f = .error fault) : NotBase64 (f :: fs) (.badBase64 fault)
  /-- It comes later. -/
  | later {f : String} {fs : List String} {bytes : Bytes} {e : Error}
      (decodes : Base64.decode f = .ok bytes) (rest : NotBase64 fs e) : NotBase64 (f :: fs) e

/-- A field is no text in base64. -/
inductive NotText (field : String) : Error → Prop
  /-- It is no base64. -/
  | notBase64 {fault : Base64.Fault} (invalid : Base64.decode field = .error fault) :
      NotText field (.badBase64 fault)
  /-- Its bytes are no text. -/
  | notUtf8 {bytes : Bytes} {fault : Utf8.Fault} (decodes : Base64.decode field = .ok bytes)
      (invalid : Utf8.decode bytes = .error fault) : NotText field (.badUtf8 bytes fault)

/-- An envelope has five parts, with dots between them and none in them. -/
def HasParts (envelope f₁ f₂ f₃ f₄ f₅ : String) : Prop :=
  envelope = ".".intercalate [f₁, f₂, f₃, f₄, f₅] ∧ ∀ f ∈ [f₁, f₂, f₃, f₄, f₅], '.' ∉ f.toList

/-- What is wrong with an envelope. -/
inductive Flawed (envelope : String) : Error → Prop
  /-- There are not four dots in it. -/
  | partCount (dots : envelope.toList.count '.' ≠ 4) : Flawed envelope (.badEnvelope .partCount)
  /-- Its first part is no text. -/
  | header {f₁ f₂ f₃ f₄ f₅ : String} {e : Error} (parts : HasParts envelope f₁ f₂ f₃ f₄ f₅)
      (notText : NotText f₁ e) : Flawed envelope e
  /-- Another part is no base64. -/
  | part {f₁ f₂ f₃ f₄ f₅ header : String} {e : Error}
      (parts : HasParts envelope f₁ f₂ f₃ f₄ f₅)
      (decodes : Base64.decode f₁ = .ok (Utf8.encode header))
      (notBase64 : NotBase64 [f₂, f₃, f₄, f₅] e) : Flawed envelope e
  /-- The parts do not fit together. -/
  | contents {f₁ f₂ f₃ f₄ f₅ header : String} {encryptedKey iv ciphertext tag : Bytes} {e : Error}
      (parts : HasParts envelope f₁ f₂ f₃ f₄ f₅)
      (decodes : Base64.decode f₁ = .ok (Utf8.encode header) ∧ Base64.decode f₂ = .ok encryptedKey
        ∧ Base64.decode f₃ = .ok iv ∧ Base64.decode f₄ = .ok ciphertext
        ∧ Base64.decode f₅ = .ok tag)
      (flawed : FlawedContents header encryptedKey iv tag e) : Flawed envelope e

lemma NotBase64.isAboutForm {fs : List String} {e : Error} (h : NotBase64 fs e) :
    e.isAboutForm = true := by
  induction h with
  | here => rfl
  | later _ _ ih => exact ih

lemma NotText.isAboutForm {field : String} {e : Error} (h : NotText field e) :
    e.isAboutForm = true := by
  cases h <;> rfl

lemma Flawed.isAboutForm {envelope : String} {e : Error} (h : Flawed envelope e) :
    e.isAboutForm = true := by
  cases h with
  | partCount => rfl
  | header _ h => exact h.isAboutForm
  | part _ _ h => exact h.isAboutForm
  | contents _ _ h => exact h.isAboutForm

/-- There is one field more than there are dots. -/
lemma length_fields (s : List Char) : (fields s).length = s.count '.' + 1 := by
  induction s with
  | nil => rfl
  | cons c s ih =>
      rw [fields]
      split
      · rename_i hc
        rw [hc, List.count_cons_self, List.length_cons, ih]
      · rename_i hc
        rw [List.count_cons_of_ne hc, ← ih]
        cases h : fields s with
        | nil => rw [h] at ih; cases ih
        | cons field more => rfl

lemma hasParts_iff {envelope f₁ f₂ f₃ f₄ f₅ : String} :
    (fields envelope.toList).map String.ofList = [f₁, f₂, f₃, f₄, f₅]
      ↔ HasParts envelope f₁ f₂ f₃ f₄ f₅ :=
  map_fields_eq_iff (List.cons_ne_nil _ _)

/-- Five parts are as many as four dots. -/
lemma exists_hasParts_iff {envelope : String} :
    (∃ f₁ f₂ f₃ f₄ f₅, HasParts envelope f₁ f₂ f₃ f₄ f₅) ↔ envelope.toList.count '.' = 4 := by
  have hlength : ((fields envelope.toList).map String.ofList).length
      = envelope.toList.count '.' + 1 := by
    rw [List.length_map, length_fields]
  simp only [← hasParts_iff]
  constructor
  · rintro ⟨f₁, f₂, f₃, f₄, f₅, hfields⟩
    rw [hfields] at hlength
    exact (Nat.succ.inj hlength).symm
  · intro hdots
    rw [hdots] at hlength
    match hfields : (fields envelope.toList).map String.ofList, hlength with
    | [f₁, f₂, f₃, f₄, f₅], _ => exact ⟨f₁, f₂, f₃, f₄, f₅, rfl⟩

/-- An envelope that is not read is flawed. -/
lemma flawed_of_parse {envelope : String} {e : Error} (h : parse envelope = .error e) :
    Flawed envelope e := by
  rw [parse] at h
  split at h
  · rename_i f₁ f₂ f₃ f₄ f₅ hfields
    have hparts := hasParts_iff.mp hfields
    simp only [Except.bind_eq_error_iff, Base64.read_eq_error_iff, Base64.read_eq_ok_iff,
      Utf8.read_eq_error_iff, Utf8.read_eq_ok_iff, ofParts_eq_error_iff] at h
    obtain ⟨fault, h₁, rfl⟩ | ⟨bytes, h₁, ⟨fault, hutf8, rfl⟩ | ⟨header, rfl, h⟩⟩ := h
    · exact .header hparts (.notBase64 h₁)
    · exact .header hparts (.notUtf8 h₁ hutf8)
    obtain ⟨fault, h₂, rfl⟩ | ⟨encryptedKey, h₂, h⟩ := h
    · exact .part hparts h₁ (.here h₂)
    obtain ⟨fault, h₃, rfl⟩ | ⟨iv, h₃, h⟩ := h
    · exact .part hparts h₁ (.later h₂ (.here h₃))
    obtain ⟨fault, h₄, rfl⟩ | ⟨ciphertext, h₄, h⟩ := h
    · exact .part hparts h₁ (.later h₂ (.later h₃ (.here h₄)))
    obtain ⟨fault, h₅, rfl⟩ | ⟨tag, h₅, h⟩ := h
    · exact .part hparts h₁ (.later h₂ (.later h₃ (.later h₄ (.here h₅))))
    · exact .contents hparts ⟨h₁, h₂, h₃, h₄, h₅⟩ h
  · rename_i hother
    cases h
    refine .partCount fun hdots => ?_
    obtain ⟨f₁, f₂, f₃, f₄, f₅, hparts⟩ := exists_hasParts_iff.mpr hdots
    exact hother _ _ _ _ _ (hasParts_iff.mpr hparts)

/-- A flawed envelope is not read, for the first thing that is wrong with it. -/
lemma parse_of_flawed {envelope : String} {e : Error} (h : Flawed envelope e) :
    parse envelope = .error e := by
  rw [parse]
  obtain hdots | ⟨hparts, h⟩ | ⟨hparts, h₁, h⟩ | ⟨hparts, ⟨h₁, h₂, h₃, h₄, h₅⟩, h⟩ := h
  · split
    · rename_i hfields
      exact absurd (exists_hasParts_iff.mp ⟨_, _, _, _, _, hasParts_iff.mp hfields⟩) hdots
    · rfl
  all_goals
    rw [hasParts_iff.mpr hparts]
    simp only [Except.bind_eq_error_iff, Base64.read_eq_error_iff, Base64.read_eq_ok_iff,
      Utf8.read_eq_error_iff, Utf8.read_eq_ok_iff, ofParts_eq_error_iff]
  · obtain hbase64 | ⟨h₁, hutf8⟩ := h
    · exact .inl ⟨_, hbase64, rfl⟩
    · exact .inr ⟨_, h₁, .inl ⟨_, hutf8, rfl⟩⟩
  · refine .inr ⟨_, h₁, .inr ⟨_, rfl, ?_⟩⟩
    obtain h₂ | ⟨h₂, h₃ | ⟨h₃, h₄ | ⟨h₄, h₅ | ⟨-, ⟨⟩⟩⟩⟩⟩ := h
    · exact .inl ⟨_, h₂, rfl⟩
    · exact .inr ⟨_, h₂, .inl ⟨_, h₃, rfl⟩⟩
    · exact .inr ⟨_, h₂, .inr ⟨_, h₃, .inl ⟨_, h₄, rfl⟩⟩⟩
    · exact .inr ⟨_, h₂, .inr ⟨_, h₃, .inr ⟨_, h₄, .inl ⟨_, h₅, rfl⟩⟩⟩⟩
  · exact .inr ⟨_, h₁, .inr ⟨_, rfl, .inr ⟨_, h₂, .inr ⟨_, h₃, .inr ⟨_, h₄, .inr ⟨_, h₅, h⟩⟩⟩⟩⟩⟩

/-- **Reading fails exactly on flawed envelopes**, with the error of the first flaw. -/
theorem parse_eq_error_iff {envelope : String} {e : Error} :
    parse envelope = .error e ↔ Flawed envelope e :=
  ⟨flawed_of_parse, parse_of_flawed⟩

/-! ### Classes of failures -/

/-- An envelope is well formed, and names a key by its id. -/
def WellFormed (envelope id : String) : Prop :=
  ∃ header s, Spells envelope header s ∧ IsHeader header id

/-- Opening an envelope depends on what a provider says of an id. -/
def Asks (g : GcmPrimitives) (envelope id : String) : Prop :=
  ∃ keys keys' : KeyProvider, (∀ other, other ≠ id → keys other = keys' other)
    ∧ decrypt g envelope keys ≠ decrypt g envelope keys'

variable {g : GcmPrimitives} {envelope : String} {e : Error}

lemma parse_of_wellFormed {id : String} (h : WellFormed envelope id) :
    ∃ c, parse envelope = .ok c ∧ c.keyId = id := by
  obtain ⟨header, s, hspells, hheader⟩ := h
  have hheader' := hheader
  obtain ⟨text, -, rfl, -⟩ := hheader'
  exact ⟨⟨text, id, s⟩, parse_eq_ok_iff.mpr ⟨hspells, hheader⟩, rfl⟩

lemma wellFormed_of_parse {c : Compact} (h : parse envelope = .ok c) :
    WellFormed envelope c.keyId :=
  ⟨_, _, parse_eq_ok_iff.mp h⟩

lemma Flawed.not_wellFormed (h : Flawed envelope e) (id : String) : ¬ WellFormed envelope id := by
  intro hwell
  obtain ⟨c, hparse, -⟩ := parse_of_wellFormed hwell
  cases (parse_of_flawed h).symm.trans hparse

lemma decrypt_of_flawed (h : Flawed envelope e) (keys : KeyProvider) :
    decrypt g envelope keys = .error e :=
  Except.bind_eq_error_iff.mpr (.inl (parse_of_flawed h))

/-- A flawed envelope asks for no key. -/
lemma Flawed.not_asks (h : Flawed envelope e) (id : String) : ¬ Asks g envelope id := by
  rintro ⟨keys, keys', -, hdiffer⟩
  exact hdiffer ((decrypt_of_flawed h keys).trans (decrypt_of_flawed h keys').symm)

/-- A well-formed envelope is opened by the key that it names, or not at all. -/
lemma decrypt_of_wellFormed {id : String} (h : WellFormed envelope id) :
    ∃ (s : Sealed) (aad : Bytes), ∀ keys : KeyProvider, decrypt g envelope keys
      = keys id >>= fun key => Gcm.openSealed g key s aad := by
  obtain ⟨c, hparse, rfl⟩ := parse_of_wellFormed h
  refine ⟨c.message, aad c.header, fun keys => ?_⟩
  rw [decrypt, hparse]
  rfl

/-- The key that an envelope names is the only one that it is opened with. -/
lemma asks_iff {id other : String} (h : WellFormed envelope id) :
    Asks g envelope other ↔ other = id := by
  obtain ⟨s, aad, hdecrypt⟩ := @decrypt_of_wellFormed g envelope id h
  constructor
  · rintro ⟨keys, keys', hsame, hdiffer⟩
    by_contra hother
    rw [hdecrypt, hdecrypt, hsame id (Ne.symm hother)] at hdiffer
    exact hdiffer rfl
  · rintro rfl
    refine ⟨fun name => if name = other then .error .openFailed else .error .sealFailed,
      fun _ => .error .sealFailed, fun name hname => if_neg hname, fun hsame => ?_⟩
    rw [hdecrypt, hdecrypt, if_pos rfl] at hsame
    cases hsame

/-- With the key that it names, a well-formed envelope is opened, or its tag does not fit. -/
lemma decrypt_of_key {id : String} {keys : KeyProvider} {key : SymmetricKey}
    (h : WellFormed envelope id) (hkey : keys id = .ok key) :
    decrypt g envelope keys = .error .openFailed
      ∨ ∃ message, decrypt g envelope keys = .ok message := by
  obtain ⟨s, aad, hdecrypt⟩ := @decrypt_of_wellFormed g envelope id h
  have hopen : decrypt g envelope keys = Gcm.openSealed g key s aad := by
    rw [hdecrypt, hkey]
    rfl
  rw [hopen]
  cases hsealed : Gcm.openSealed g key s aad with
  | error e => exact .inl (by rw [Gcm.openSealed_eq_error hsealed])
  | ok message => exact .inr ⟨message, rfl⟩

/-- Without it, the provider has the last word. -/
lemma decrypt_of_no_key {id : String} {keys : KeyProvider} (h : WellFormed envelope id)
    (hkey : keys id = .error e) : decrypt g envelope keys = .error e := by
  obtain ⟨s, aad, hdecrypt⟩ := @decrypt_of_wellFormed g envelope id h
  rw [hdecrypt, hkey]
  rfl

/-- A key is missing only for a well-formed envelope that names one. -/
lemma decrypt_eq_noSuchKey_iff {keys : KeyProvider} {id : String} :
    decrypt g envelope keys = .error (.noSuchKey id)
      ↔ ∃ named, WellFormed envelope named ∧ keys named = .error (.noSuchKey id) := by
  constructor
  · intro h
    obtain h | ⟨c, hparse, h⟩ := Except.bind_eq_error_iff.mp h
    · cases (flawed_of_parse h).isAboutForm
    obtain h | ⟨key, -, h⟩ := Except.bind_eq_error_iff.mp h
    · exact ⟨c.keyId, wellFormed_of_parse hparse, h⟩
    · cases Gcm.openSealed_eq_error h
  · rintro ⟨named, hwell, hkey⟩
    exact decrypt_of_no_key hwell hkey

/-- **An envelope is flawed or asks for one key.** If it is flawed, opening it fails in one way,
whatever keys there are and without asking for any; that way is no answer of a provider and no
failed tag. If it is not, opening it fails as the provider does, or else it is opened or its tag
does not fit. So a provider lacks a key only for a well-formed envelope that names one. -/
theorem decrypt_classified (g : GcmPrimitives) (envelope : String) :
    ((∃ e, Flawed envelope e ∧ (∀ id, ¬ WellFormed envelope id)
        ∧ e ≠ .openFailed ∧ (∀ id, e ≠ .noSuchKey id) ∧ (∀ id, ¬ Asks g envelope id)
        ∧ ∀ keys, decrypt g envelope keys = .error e)
      ∨ ∃ id, WellFormed envelope id ∧ (∀ e, ¬ Flawed envelope e)
        ∧ (∀ other, Asks g envelope other ↔ other = id)
        ∧ ∀ keys, (∀ e, keys id = .error e → decrypt g envelope keys = .error e)
          ∧ ∀ key, keys id = .ok key → decrypt g envelope keys = .error .openFailed
            ∨ ∃ message, decrypt g envelope keys = .ok message)
    ∧ ∀ (keys : KeyProvider) (id : String), decrypt g envelope keys = .error (.noSuchKey id) ↔
      ∃ named, WellFormed envelope named ∧ keys named = .error (.noSuchKey id) := by
  refine ⟨?_, fun keys id => decrypt_eq_noSuchKey_iff⟩
  cases hparse : parse envelope with
  | error e =>
      have hflawed := flawed_of_parse hparse
      refine .inl ⟨e, hflawed, hflawed.not_wellFormed, ?_, ?_, hflawed.not_asks,
        decrypt_of_flawed hflawed⟩
      · rintro rfl
        cases hflawed.isAboutForm
      · rintro id rfl
        cases hflawed.isAboutForm
  | ok c =>
      have hwell := wellFormed_of_parse hparse
      exact .inr ⟨c.keyId, hwell, fun e hflawed => hflawed.not_wellFormed _ hwell,
        fun other => asks_iff hwell,
        fun keys => ⟨fun e => decrypt_of_no_key hwell, fun key => decrypt_of_key hwell⟩⟩

end Compact

end Signet
