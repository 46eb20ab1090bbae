/-
# Protecting a value

`Protector`, the interface the configuration protects its values through, and
`ConfigProtector`, which encrypts a value between two tags and seals the text
of that, tagged again, in Base64. Whether a text is protected is told by its
seal and tag alone; the key, which a key file sets, has a part in the other
methods only.

The cipher, the digest and Base64 are a parameter (`Crypto`). If they undo what
they do (`Crypto.Inverts`), a protected value is recognised and read back under
the same key, whatever it contains: each layer is taken off once
(`ConfigProtector.readBack`). It is written in the alphabet of Base64
(`ConfigProtector.lawful`).

Key definitions: `Protector`, `Protector.Lawful`, `Crypto`, `ConfigProtector`.
Key theorems: `ConfigProtector.readBack`, `ConfigProtector.lawful`.
-/
import Plethora.Common.Java
import Plethora.Lib.Charset
import Plethora.Lib.Base64

namespace Plethora

/-- What a method throws: a declared exception or an unchecked one. -/
inductive Thrown (ε : Type)
  | declared (e : ε)
  | unchecked (e : JavaError)
  deriving DecidableEq

inductive ConfigProtectException
  | configProtect
  deriving DecidableEq

/-- The declared exceptions of `plainValue`. -/
inductive PlainValueException
  | configProtect
  | configProtectKey
  deriving DecidableEq

/-- The declared exceptions of `setKey`. -/
inductive SetKeyException
  | configProtect
  | io
  deriving DecidableEq

/-- A protector that keeps a key `κ`; a value to read can be `null`. -/
structure Protector (κ : Type) where
  isProtected : Text → Except (Thrown ConfigProtectException) Bool
  protectedValue : κ → Text → Except (Thrown ConfigProtectException) Text
  plainValue : κ → Option Text → Except (Thrown PlainValueException) Text
  setKey : κ → Text → Except (Thrown SetKeyException) κ

/-- A character of Base64. -/
def base64 (c : Char) : Bool := c.isAlphanum || c = '+' || c = '/' || c = '='

/-- A text in Base64 that is not padding only. -/
def Encoded (t : Text) : Prop := t ≠ [] ∧ t.head? ≠ some '=' ∧ ∀ c ∈ t, base64 c = true

/-- A protector that recognises and reads what it protected. -/
structure Protector.Lawful {κ : Type} (P : Protector κ) : Prop where
  isProtected : ∀ {k v u}, P.protectedValue k v = .ok u → P.isProtected u = .ok true
  plainValue : ∀ {k v u}, P.protectedValue k v = .ok u → P.plainValue k (some u) = .ok v
  encoded : ∀ {k v u}, P.protectedValue k v = .ok u → Encoded u

/-! ### The alphabet -/

/-- All characters of Base64 but letters and digits. -/
theorem base64_cases {c : Char} (h : base64 c = true) : c.isAlphanum = true ∨ c = '+' ∨ c = '/' ∨ c = '=' := by
  simp only [base64, Bool.or_eq_true, decide_eq_true_eq] at h
  tauto

theorem isAlphanum_toNat {c : Char} (h : c.isAlphanum = true) :
    (48 ≤ c.toNat ∧ c.toNat ≤ 57) ∨ (65 ≤ c.toNat ∧ c.toNat ≤ 90) ∨ (97 ≤ c.toNat ∧ c.toNat ≤ 122) := by
  have hv : c.val.toNat = c.toNat := rfl
  delta Char.isAlphanum Char.isAlpha Char.isUpper Char.isLower Char.isDigit at h
  simp only [Bool.or_eq_true, Bool.and_eq_true, decide_eq_true_eq, ge_iff_le, UInt32.le_iff_toNat_le] at h
  simp at h
  omega

/-- Every character of Base64 is an ASCII one that a properties file takes as it is. -/
theorem base64_plain {c : Char} (h : base64 c = true) : 43 ≤ c.toNat ∧ c.toNat ≤ 122 ∧ c ≠ ':' ∧ c ≠ '\\' := by
  have key : ∀ d : Char, (48 ≤ c.toNat ∧ c.toNat ≤ 57) ∨ (65 ≤ c.toNat ∧ c.toNat ≤ 90) ∨ (97 ≤ c.toNat ∧ c.toNat ≤ 122) →
      d.toNat = 58 ∨ d.toNat = 92 → c ≠ d := by
    rintro d hc hd rfl
    omega
  rcases base64_cases h with h | rfl | rfl | rfl
  · have hc := isAlphanum_toNat h
    exact ⟨by omega, by omega, key _ hc (Or.inl rfl), key _ hc (Or.inr rfl)⟩
  all_goals decide

/-! ### `ConfigProtector` -/

/-- The cipher under a key, the digest of a file, and `DatatypeConverter`. -/
structure Crypto where
  encrypt : Text → List UInt8 → Except Unit (List UInt8)
  decrypt : Text → List UInt8 → Except Unit (List UInt8)
  sha1 : Text → Except SetKeyException (List UInt8)
  printBase64Binary : List UInt8 → Text
  parseBase64Binary : Text → Except JavaError (List UInt8)

/-- Each of them undoes what it does. -/
structure Crypto.Lawful (C : Crypto) : Prop where
  decrypt : ∀ {key bytes c}, C.encrypt key bytes = .ok c → C.decrypt key c = .ok bytes
  parse : ∀ bytes, C.parseBase64Binary (C.printBase64Binary bytes) = .ok bytes
  encoded : ∀ {bytes}, bytes ≠ [] → Encoded (C.printBase64Binary bytes)

/-- Decryption under the same key and the reader of Base64 undo what was done. -/
structure Crypto.Inverts (C : Crypto) : Prop where
  decrypt : ∀ {key bytes c}, C.encrypt key bytes = .ok c → C.decrypt key c = .ok bytes
  parse : ∀ bytes, C.parseBase64Binary (C.printBase64Binary bytes) = .ok bytes

theorem Crypto.Lawful.inverts {C : Crypto} (h : C.Lawful) : C.Inverts := ⟨h.decrypt, h.parse⟩

namespace ConfigProtector

def TAG : Text := "<::ANTNA::>".toList

def PARTIAL_KEY : Text := "x7EC(P!,t$2pki0[[P|2cY1cLAi-A'jg!e=c$=c.:;Pvx=h`Zr!7dYAFf\x7b$$EKC".toList

def checkTag (value : Text) : Bool := TAG.isPrefixOf value && TAG.isSuffixOf value

def tag (value : Text) : Text := TAG ++ value ++ TAG

/-- The text between the tags; a single tag is too short for both. -/
def unTag (value : Text) : Except JavaError Text :=
  if checkTag value then
    if value.length < 2 * TAG.length then .error .indexOutOfBounds
    else .ok ((value.take (value.length - TAG.length)).drop TAG.length)
  else .ok value

variable (C : Crypto)

/-- `seal(value)`. -/
def sealValue (value : Text) : Text := C.printBase64Binary (Utf8.encode value)

def unSeal (value : Text) : Except JavaError Text := (C.parseBase64Binary value).map Utf8.decode

def protect (key value : Text) : Except Unit Text := (C.encrypt key (Utf8.encode value)).map C.printBase64Binary

/-- An unchecked exception passes through. -/
def unchecked {ε α : Type} : Except JavaError α → Except (Thrown ε) α
  | .ok a => .ok a
  | .error e => .error (.unchecked e)

/-- A checked exception of the cipher becomes another one. -/
def rethrow {ε α : Type} (e : ε) : Except Unit α → Except (Thrown ε) α
  | .ok a => .ok a
  | .error () => .error (.declared e)

theorem rethrow_ok {ε α : Type} {e : ε} {x : Except Unit α} {a : α} (h : rethrow e x = .ok a) : x = .ok a := by
  cases x with
  | ok b => exact congrArg _ (Except.ok.inj h)
  | error u => cases h

def unProtect (key value : Text) : Except (Thrown PlainValueException) Text := do
  let bytes ← unchecked (C.parseBase64Binary value)
  let plain ← rethrow .configProtect (C.decrypt key bytes)
  pure (Utf8.decode plain)

def isProtected (value : Text) : Except (Thrown ConfigProtectException) Bool := do
  pure (checkTag (← unchecked (unSeal C value)))

def protectedValue (key value : Text) : Except (Thrown ConfigProtectException) Text := do
  let protectedValue ← rethrow .configProtect (protect C key (tag value))
  pure (sealValue C (tag protectedValue))

def plainValue (key : Text) : Option Text → Except (Thrown PlainValueException) Text
  | none => .error (.unchecked .nullPointer)
  | some value => do
    let untaggedValue ← unchecked (unTag (← unchecked (unSeal C value)))
    let plainValue ← unProtect C key untaggedValue
    if checkTag plainValue then unchecked (unTag plainValue) else .error (.declared .configProtectKey)

/-- `setKey(file)`: the key before it does not matter. -/
def setKey (_ : Text) (file : Text) : Except (Thrown SetKeyException) Text :=
  match C.sha1 file with
  | .ok mdBytes => .ok (sealValue C (Utf8.decode mdBytes) ++ PARTIAL_KEY)
  | .error e => .error (.declared e)

end ConfigProtector

/-- `ConfigProtector`, whose state is its key. -/
def ConfigProtector (C : Crypto) : Protector Text where
  isProtected := ConfigProtector.isProtected C
  protectedValue := ConfigProtector.protectedValue C
  plainValue := ConfigProtector.plainValue C
  setKey := ConfigProtector.setKey C

namespace ConfigProtector

theorem checkTag_tag (value : Text) : checkTag (tag value) = true := by
  rw [checkTag, Bool.and_eq_true, List.isPrefixOf_iff_prefix, List.isSuffixOf_iff_suffix, tag]
  exact ⟨⟨value ++ TAG, (List.append_assoc ..).symm⟩, List.suffix_append ..⟩

/-- The outermost tags come off. -/
theorem unTag_tag (value : Text) : unTag (tag value) = .ok value := by
  have hl : (tag value).length = TAG.length + value.length + TAG.length := by
    rw [tag, List.length_append, List.length_append]
  have ht : (tag value).take ((tag value).length - TAG.length) = TAG ++ value := by
    rw [hl, Nat.add_sub_cancel, tag, List.take_left' (by rw [List.length_append])]
  rw [unTag, if_pos (checkTag_tag value), if_neg (by rw [hl]; omega), ht, List.drop_left' rfl]

theorem encode_tag_ne_nil (value : Text) : Utf8.encode (tag value) ≠ [] := by
  intro h
  have hd := congrArg Utf8.decode h
  rw [Utf8.decode_encode] at hd
  have : checkTag [] = true := by
    rw [← checkTag_tag value, hd]
    rfl
  revert this
  decide

section Layers

variable {C : Crypto}

theorem protectedValue_ok {key value u : Text} (h : protectedValue C key value = .ok u) :
    ∃ p, protect C key (tag value) = .ok p ∧ u = sealValue C (tag p) := by
  obtain ⟨p, hp, h⟩ := bind_eq_ok.mp h
  exact ⟨p, rethrow_ok hp, (Except.ok.inj h).symm⟩

variable (hC : C.Inverts)
include hC

theorem unSeal_seal (value : Text) : unSeal C (sealValue C value) = .ok value := by
  rw [unSeal, sealValue, hC.parse]
  exact congrArg Except.ok (Utf8.decode_encode value)

theorem unProtect_protect {key value p : Text} (h : protect C key value = .ok p) : unProtect C key p = .ok value := by
  obtain ⟨c, he, h⟩ := bind_eq_ok.mp h
  obtain rfl : C.printBase64Binary c = p := Except.ok.inj h
  rw [unProtect, hC.parse]
  show (rethrow _ (C.decrypt key c) >>= _) = _
  rw [hC.decrypt he]
  exact congrArg Except.ok (Utf8.decode_encode value)

/-- A sealed text between tags is recognised. -/
theorem isProtected_seal (p : Text) : isProtected C (sealValue C (tag p)) = .ok true := by
  rw [isProtected, unSeal_seal hC]
  exact congrArg Except.ok (checkTag_tag p)

/-- The layers come off one by one. -/
theorem plainValue_seal {key value p : Text} (hp : protect C key (tag value) = .ok p) :
    plainValue C key (some (sealValue C (tag p))) = .ok value := by
  rw [plainValue, unSeal_seal hC]
  show (unchecked (unTag (tag p)) >>= _) = _
  rw [unTag_tag]
  show (unProtect C key p >>= _) = _
  rw [unProtect_protect hC hp]
  show (if checkTag (tag value) then _ else _) = _
  rw [if_pos (checkTag_tag value), unTag_tag]
  rfl

end Layers

/-- **What is protected is recognised and read back**, each of its layers
undone once: the seal, the tags within, the cipher and the tags around the
value. Nothing is protected only if the cipher fails on the tagged value. -/
theorem readBack {C : Crypto} (hC : C.Inverts) (key value : Text) :
    (∃ u p, protectedValue C key value = .ok u ∧ isProtected C u = .ok true ∧ plainValue C key (some u) = .ok value ∧
      unSeal C u = .ok (tag p) ∧ unTag (tag p) = .ok p ∧ unProtect C key p = .ok (tag value) ∧
      unTag (tag value) = .ok value) ∨
    (C.encrypt key (Utf8.encode (tag value)) = .error () ∧
      protectedValue C key value = .error (.declared .configProtect)) := by
  cases he : C.encrypt key (Utf8.encode (tag value)) with
  | error e =>
    refine Or.inr ⟨rfl, ?_⟩
    rw [protectedValue, protect, he]
    rfl
  | ok c =>
    have hp : protect C key (tag value) = .ok (C.printBase64Binary c) := by
      rw [protect, he]
      rfl
    refine Or.inl ⟨_, _, ?_, isProtected_seal hC _, plainValue_seal hC hp, unSeal_seal hC _, unTag_tag _,
      unProtect_protect hC hp, unTag_tag value⟩
    rw [protectedValue, hp]
    rfl

/-- The tagged value that protects the tag itself, under the key a protector
starts with. -/
def plainBytes : List UInt8 := Utf8.encode (tag TAG)

def cipherBytes : List UInt8 :=
  [219, 108, 31, 106, 102, 106, 86, 25, 116, 123, 160, 39, 33, 27, 182, 132, 92, 33, 39, 121, 26, 119, 96, 187,
    182, 52, 124, 221, 96, 75, 160, 218, 18, 224, 19, 85, 244, 34, 20, 251]

/-- A cipher that knows one message. -/
def oneMessage : Crypto where
  encrypt key bytes := if key = PARTIAL_KEY ∧ bytes = plainBytes then .ok cipherBytes else .error ()
  decrypt key bytes := if key = PARTIAL_KEY ∧ bytes = cipherBytes then .ok plainBytes else .error ()
  sha1 _ := .error .io
  printBase64Binary := Base64.print
  parseBase64Binary t := (Base64.parse t).elim (.error .indexOutOfBounds) .ok

theorem inverts_oneMessage : oneMessage.Inverts where
  decrypt := fun {key bytes c} h => by
    unfold oneMessage at h
    dsimp only at h
    split at h
    · rename_i hk
      cases h
      rw [hk.2]
      exact if_pos ⟨hk.1, rfl⟩
    · cases h
  parse := fun bytes => by
    show (Base64.parse (Base64.print bytes)).elim _ _ = _
    rw [Base64.parse_print]
    rfl

theorem readBack_tag : ∃ u, protectedValue oneMessage PARTIAL_KEY TAG = .ok u ∧
    isProtected oneMessage u = .ok true ∧ plainValue oneMessage PARTIAL_KEY (some u) = .ok TAG := by
  rcases readBack inverts_oneMessage PARTIAL_KEY TAG with ⟨u, p, hu, hprotected, hplain, -⟩ | ⟨he, -⟩
  · exact ⟨u, hu, hprotected, hplain⟩
  · have hok : oneMessage.encrypt PARTIAL_KEY plainBytes = .ok cipherBytes := by
      unfold oneMessage
      dsimp only
      rw [if_pos (And.intro rfl rfl)]
    rw [plainBytes] at hok
    rw [hok] at he
    cases he

/-- **What a `ConfigProtector` protects it recognises and reads back.** -/
theorem lawful {C : Crypto} (hC : C.Lawful) : (ConfigProtector C).Lawful where
  isProtected := fun {key value u} h => by
    obtain ⟨p, -, rfl⟩ := protectedValue_ok h
    exact isProtected_seal hC.inverts p
  plainValue := fun {key value u} h => by
    obtain ⟨p, hp, rfl⟩ := protectedValue_ok h
    exact plainValue_seal hC.inverts hp
  encoded := fun {key value u} h => by
    obtain ⟨p, -, rfl⟩ := protectedValue_ok h
    exact hC.encoded (encode_tag_ne_nil p)

end ConfigProtector

end Plethora
