import Mathlib.Tactic
import Signet.Proofs.Json.Written
import Signet.Proofs.Key.Jwk
import Signet.Proofs.Text.Padding

/-!
Export and import of keys agree, for all types of keys alike.

* **Types.** `Jwk.Form` are the types of keys that are exported and imported. `Form.toJwk_eq` says
  which members an export has, and all that follows is read off them.
* **Import.** `Jwk.Agrees`: an object says the same as an export, up to padding in the bytes that it
  spells. `Form.ofJwk_eq_ok_iff_agrees`: exactly these objects are imported as the exported key.
* **Kinds.** Keys that sign, keys to agree with and symmetric keys are three kinds.
  `Form.ofJwk_of_kty` and `Form.ofJwk_of_crv`: what says that it is of another kind is refused, so
  that no export of another kind is imported (`Form.ofJwk_toJwk_of_kind_ne`).
* `Jwk.import_export`: all of it together, also for an export that is written as text.
-/

namespace Signet.Jwk

open Json.Members (get?_ofList_of_nodup get?_eq_some_iff_mem get?_eq_none_iff)

/-! ### Types of keys -/

/-- The types of keys that are exported. -/
inductive Form where
  /-- Symmetric keys. -/
  | named
  /-- Public keys on the curve for a use. -/
  | publicKey (use : KeyUse)
  /-- Key pairs on the curve for a use. -/
  | keyPair (use : KeyUse)

namespace Form

/-- The keys of a type. -/
def Key : Form → Type
  | named => NamedKey
  | publicKey use => PublicKey use
  | keyPair use => KeyPair use

/-- Exports a key. -/
def toJwk : (f : Form) → f.Key → Json
  | named => NamedKey.toJwk
  | publicKey _ => PublicKey.toJwk
  | keyPair _ => KeyPair.toJwk

/-- Imports a key. -/
def ofJwk : (f : Form) → Json → Except Error f.Key
  | named => NamedKey.ofJwk
  | publicKey _ => PublicKey.ofJwk
  | keyPair _ => KeyPair.ofJwk

/-- The kind of a key: what it is for, if it is on a curve. -/
def kind : Form → Option KeyUse
  | named => none
  | publicKey use => some use
  | keyPair use => some use

/-- The members that say which key it is, and of what kind. -/
def texts : (f : Form) → f.Key → List (String × String)
  | named, (k : NamedKey) => [("kid", k.id), ("kty", octets), ("alg", symmetricAlgorithm)]
  | publicKey use, (k : PublicKey use) =>
    [("kid", k.id), ("kty", onCurve), ("crv", use.curveName)]
  | keyPair use, (k : KeyPair use) => [("kid", k.id), ("kty", onCurve), ("crv", use.curveName)]

/-- The members that spell the bytes of a key. -/
def bytes : (f : Form) → f.Key → List (String × FixedBytes 32)
  | named, (k : NamedKey) => [("k", k.key)]
  | publicKey _, (k : PublicKey _) => [("x", k.point)]
  | keyPair _, (k : KeyPair _) => [("x", k.point), ("d", k.secret)]

variable (f : Form) (k : f.Key)

/-- The members of an exported key, before they are put in order. -/
def entries : Json.Members :=
  (f.texts k).map (fun e => (e.1, .str e.2))
    ++ (f.bytes k).map fun e => (e.1, .str (Base64.encode e.2.toList))

lemma toJwk_eq : f.toJwk k = .obj (Json.Members.ofList (f.entries k)) := by
  cases f <;> rfl

lemma nodup_entries : ((f.entries k).map Prod.fst).Nodup := by
  cases f <;> simp [entries, texts, bytes]

variable {f k}

lemma get?_of_mem_entries {e : String × Json} (h : e ∈ f.entries k) :
    (Json.Members.ofList (f.entries k)).get? e.1 = some e.2 := by
  rw [get?_ofList_of_nodup (f.nodup_entries k), get?_eq_some_iff_mem (f.nodup_entries k)]
  exact h

lemma get?_of_mem_texts {e : String × String} (h : e ∈ f.texts k) :
    (Json.Members.ofList (f.entries k)).get? e.1 = some (.str e.2) :=
  get?_of_mem_entries (List.mem_append_left _ (List.mem_map_of_mem h))

lemma get?_of_mem_bytes {e : String × FixedBytes 32} (h : e ∈ f.bytes k) :
    (Json.Members.ofList (f.entries k)).get? e.1
      = some (.str (Base64.encode e.2.toList)) :=
  get?_of_mem_entries (List.mem_append_right _ (List.mem_map_of_mem h))

lemma get?_entries_eq_none {name : String} (h : ∀ e ∈ f.entries k, e.1 ≠ name) :
    (Json.Members.ofList (f.entries k)).get? name = none := by
  rw [get?_ofList_of_nodup (f.nodup_entries k)]
  exact get?_eq_none_iff.mpr h

variable (f k)

/-- An export that is written is read as itself. -/
lemma readsAs_toJwk {number : String → List Char} {depth : ℕ} :
    Json.ReadsAs number (depth + 1) (f.toJwk k) (f.toJwk k) := by
  rw [toJwk_eq]
  refine Json.readsAs_ofList ?_
  cases f <;> simp [entries, texts, bytes, Json.numberName]

end Form

/-! ### Import -/

/-- Two members hold the same text. -/
def SameText (ms ms' : Json.Members) (name : String) : Prop :=
  ∃ text, ms.get? name = some (.str text) ∧ ms'.get? name = some (.str text)

/-- Two members spell the same 32 bytes, with the same text but for padding at the end of the
second one. -/
def SameBytes (ms ms' : Json.Members) (name : String) : Prop :=
  ∃ (text : String) (n : ℕ) (bytes : FixedBytes 32), ms.get? name = some (.str text)
    ∧ ms'.get? name = some (.str (Base64.padded text n))
    ∧ Base64.decode (Base64.padded text n) = .ok bytes.toList

/-- An object says the same as the export of a key. -/
def Agrees (f : Form) (k : f.Key) (jwk : Json) : Prop :=
  ∃ ms ms', f.toJwk k = .obj ms ∧ jwk = .obj ms' ∧ (∀ e ∈ f.texts k, SameText ms ms' e.1)
    ∧ ∀ e ∈ f.bytes k, SameBytes ms ms' e.1

variable {ms ms' : Json.Members} {name : String}

lemma sameText_iff {text : String} (h : ms.get? name = some (.str text)) :
    SameText ms ms' name ↔ ms'.get? name = some (.str text) := by
  simp [SameText, h]

/-- Bytes have one text up to padding, so that any text will do that they are read from. -/
lemma sameBytes_iff {bytes : FixedBytes 32}
    (h : ms.get? name = some (.str (Base64.encode bytes.toList))) :
    SameBytes ms ms' name ↔
      ∃ text, ms'.get? name = some (.str text) ∧ Base64.decode text = .ok bytes.toList := by
  constructor
  · rintro ⟨text, n, bytes', htext, hname, hdecode⟩
    rw [h] at htext
    cases htext
    have hencode := Base64.unpadded_of_decode hdecode
    rw [Base64.unpadded_padded_encode] at hencode
    refine ⟨_, hname, ?_⟩
    rw [hdecode, ← Base64.decode_encode bytes'.toList, ← hencode, Base64.decode_encode]
  · rintro ⟨text, hname, hdecode⟩
    obtain ⟨n, -, rfl⟩ := Base64.decode_eq_ok_iff.mp hdecode
    exact ⟨_, n, bytes, h, hname, hdecode⟩

namespace Form

/-- An object is imported as the key that it names and spells out, if it says that it is of its
kind. -/
lemma ofJwk_eq_ok_iff (f : Form) (k : f.Key) {jwk : Json} :
    f.ofJwk jwk = .ok k ↔ ∃ ms, jwk = .obj ms
      ∧ (∀ e ∈ f.texts k, Json.Members.get? e.1 ms = some (.str e.2))
      ∧ ∀ e ∈ f.bytes k, ∃ text, Json.Members.get? e.1 ms = some (.str text)
        ∧ Base64.decode text = .ok e.2.toList := by
  cases f with
  | named => exact NamedKey.ofJwk_eq_ok_iff.trans (by simp [texts, bytes])
  | publicKey use => exact PublicKey.ofJwk_eq_ok_iff.trans (by simp [texts, bytes])
  | keyPair use => exact KeyPair.ofJwk_eq_ok_iff.trans (by simp [texts, bytes])

/-- **An object is imported as a key exactly if it agrees with the export of that key.** -/
theorem ofJwk_eq_ok_iff_agrees (f : Form) (k : f.Key) (jwk : Json) :
    f.ofJwk jwk = .ok k ↔ Agrees f k jwk := by
  rw [ofJwk_eq_ok_iff]
  constructor
  · rintro ⟨ms, rfl, htexts, hbytes⟩
    exact ⟨_, ms, f.toJwk_eq k, rfl,
      fun e he => (sameText_iff (get?_of_mem_texts he)).mpr (htexts e he),
      fun e he => (sameBytes_iff (get?_of_mem_bytes he)).mpr (hbytes e he)⟩
  · rintro ⟨ms, ms', hexported, rfl, htexts, hbytes⟩
    obtain rfl := Json.obj.inj (hexported.symm.trans (f.toJwk_eq k))
    exact ⟨ms', rfl,
      fun e he => (sameText_iff (get?_of_mem_texts he)).mp (htexts e he),
      fun e he => (sameBytes_iff (get?_of_mem_bytes he)).mp (hbytes e he)⟩

/-- **An exported key is imported as itself.** -/
theorem ofJwk_toJwk (f : Form) (k : f.Key) : f.ofJwk (f.toJwk k) = .ok k := by
  rw [ofJwk_eq_ok_iff]
  exact ⟨_, f.toJwk_eq k, fun e he => get?_of_mem_texts he,
    fun e he => ⟨_, get?_of_mem_bytes he, Base64.decode_encode _⟩⟩

/-! ### Kinds -/

/-- What the member `kty` says of a kind. -/
def typeName : Option KeyUse → String
  | none => octets
  | some _ => onCurve

lemma kty_mem_texts (f : Form) (k : f.Key) : ("kty", typeName f.kind) ∈ f.texts k := by
  cases f <;> simp [texts, typeName, kind]

lemma crv_mem_texts {f : Form} (k : f.Key) {use : KeyUse} (h : f.kind = some use) :
    ("crv", use.curveName) ∈ f.texts k := by
  cases f <;> cases h <;> simp [texts]

/-- What says that it is of another type is refused. -/
lemma ofJwk_of_kty (f : Form) {ms : Json.Members} {found : String}
    (h : ms.get? "kty" = some (.str found)) (hne : found ≠ typeName f.kind) :
    f.ofJwk (.obj ms) = .error (.keyMismatch (.member "kty" (typeName f.kind) found)) := by
  cases f with
  | named => exact NamedKey.ofJwk_of_kty h hne
  | publicKey use =>
      show PublicKey.ofJwk (.obj ms) = _
      rw [PublicKey.ofJwk, membersOnCurve_of_kty h hne]
      rfl
  | keyPair use =>
      show KeyPair.ofJwk (.obj ms) = _
      rw [KeyPair.ofJwk, membersOnCurve_of_kty h hne]
      rfl

/-- What says that it is on another curve is refused. -/
lemma ofJwk_of_crv {f : Form} {use : KeyUse} (hkind : f.kind = some use) {ms : Json.Members}
    {found : String} (hkty : ms.get? "kty" = some (.str onCurve))
    (h : ms.get? "crv" = some (.str found)) (hne : found ≠ use.curveName) :
    f.ofJwk (.obj ms) = .error (.keyMismatch (.member "crv" use.curveName found)) := by
  cases f with
  | named => cases hkind
  | publicKey _ =>
      cases hkind
      show PublicKey.ofJwk (.obj ms) = _
      rw [PublicKey.ofJwk, membersOnCurve_of_crv hkty h hne]
      rfl
  | keyPair _ =>
      cases hkind
      show KeyPair.ofJwk (.obj ms) = _
      rw [KeyPair.ofJwk, membersOnCurve_of_crv hkty h hne]
      rfl

/-- **An export of another kind is refused**: for what it says of its type, or of its curve. -/
theorem ofJwk_toJwk_of_kind_ne {f g : Form} (hne : g.kind ≠ f.kind) (k : g.Key) :
    ∃ name expected found,
      f.ofJwk (g.toJwk k) = .error (.keyMismatch (.member name expected found)) := by
  have hkty := get?_of_mem_texts (g.kty_mem_texts k)
  rw [g.toJwk_eq]
  by_cases htype : typeName g.kind = typeName f.kind
  · -- Both are on a curve, and not on the same one.
    match hf : f.kind, hg : g.kind with
    | none, none => exact absurd (hg.trans hf.symm) hne
    | none, some _ => simp [hf, hg, typeName, octets, onCurve] at htype
    | some _, none => simp [hf, hg, typeName, octets, onCurve] at htype
    | some use, some other =>
        have hcurve : other.curveName ≠ use.curveName := fun h =>
          hne (by rw [hf, hg, KeyUse.curveName_injective h])
        rw [hg] at hkty
        exact ⟨_, _, _,
          ofJwk_of_crv hf hkty (get?_of_mem_texts (crv_mem_texts k hg)) hcurve⟩
  · exact ⟨_, _, _, f.ofJwk_of_kty hkty htype⟩

end Form

/-! ### Public keys and key pairs -/

variable {use : KeyUse}

/-- The public half of an exported key pair is imported on its own. -/
lemma ofJwk_toJwk_of_keyPair (k : KeyPair use) : PublicKey.ofJwk k.toJwk = .ok k.publicKey := by
  have himported := (Form.ofJwk_eq_ok_iff (.keyPair use) k).mp (Form.ofJwk_toJwk (.keyPair use) k)
  obtain ⟨ms, hjwk, htexts, hbytes⟩ := himported
  refine (Form.ofJwk_eq_ok_iff (.publicKey use) k.publicKey).mpr ⟨ms, hjwk, htexts, ?_⟩
  intro e he
  exact hbytes e (List.mem_cons.mpr (.inl (List.mem_singleton.mp he)))

/-- An exported public key has no secret that a key pair could have. -/
lemma keyPair_ofJwk_toJwk (k : PublicKey use) :
    (KeyPair.ofJwk k.toJwk : Except Error (KeyPair use)) = .error (.missingMember "d") := by
  have hkty := Form.get?_of_mem_texts (Form.kty_mem_texts (.publicKey use) k)
  have hcrv := Form.get?_of_mem_texts (@Form.crv_mem_texts (.publicKey use) k use rfl)
  have hd : (Json.Members.ofList (Form.entries (.publicKey use) k)).get? "d" = none :=
    Form.get?_entries_eq_none (by simp [Form.entries, Form.texts, Form.bytes])
  exact KeyPair.ofJwk_of_no_secret hkty hcrv hd

/-! ### All types of keys -/

/-- **Export and import agree.** Every key is imported as itself from its export, also if that was
written as text and read again; a key pair is imported as its public half, a public key is not
imported as a key pair, and no key is imported as one of another kind. What is imported as a key
is, conversely, any object that agrees with its export, and nothing else. -/
theorem import_export :
    (∀ (f : Form) (k : f.Key), f.ofJwk (f.toJwk k) = .ok k
      ∧ (Json.read (Json.compact (f.toJwk k)) >>= f.ofJwk) = .ok k)
    ∧ (∀ (use : KeyUse) (k : KeyPair use), PublicKey.ofJwk k.toJwk = .ok k.publicKey)
    ∧ (∀ (use : KeyUse) (k : PublicKey use),
      (KeyPair.ofJwk k.toJwk : Except Error (KeyPair use)) = .error (.missingMember "d"))
    ∧ (∀ (f g : Form) (k : g.Key), g.kind ≠ f.kind → ∃ name expected found,
      f.ofJwk (g.toJwk k) = .error (.keyMismatch (.member name expected found)))
    ∧ ∀ (f : Form) (jwk : Json) (k : f.Key), f.ofJwk jwk = .ok k ↔ Agrees f k jwk := by
  refine ⟨fun f k => ⟨f.ofJwk_toJwk k, ?_⟩, fun _ => ofJwk_toJwk_of_keyPair,
    fun _ => keyPair_ofJwk_toJwk, fun f g k hne => Form.ofJwk_toJwk_of_kind_ne hne k,
    fun f jwk k => f.ofJwk_eq_ok_iff_agrees k jwk⟩
  rw [(f.readsAs_toJwk k).read]
  exact f.ofJwk_toJwk k

/-- A key that signs is not imported as one to agree on secrets with. -/
theorem refuses_profile_as_connect :
    (Form.publicKey .profile).kind ≠ (Form.publicKey .connect).kind
      ∧ ∃ name expected found,
        (PublicKey.ofJwk (⟨"a", .zero 32⟩ : PublicKey .profile).toJwk
          : Except Error (PublicKey .connect))
          = .error (.keyMismatch (.member name expected found)) :=
  have hne : (Form.publicKey .profile).kind ≠ (Form.publicKey .connect).kind := by
    simp [Form.kind]
  ⟨hne, import_export.2.2.2.1 (.publicKey .connect) (.publicKey .profile)
    (⟨"a", .zero 32⟩ : PublicKey .profile) hne⟩

end Signet.Jwk
