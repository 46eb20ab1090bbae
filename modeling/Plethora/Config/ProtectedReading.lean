/-
# Reading a protected property

`ProtectedConfiguration.getProperty`, with a default and without one, decodes
whatever the table has under a protected name, and the default where it has
nothing. The two exceptions of the protector are caught, and give null. Two
others are not: the protector has no answer to null, and it cuts the tags off a
text that begins and ends with the tag, also off one that is the tag once.

So a protected property is read as it should be exactly if it is there and
neither what is decoded nor what is decrypted is a single tag:
`getProperty_decodes_iff`.

Key definitions: `Crypto.Total`, `ConfigProtector.Readable`,
`ConfigProtector.Decrypted`, `ProtectedConfiguration.Decodes`.
Key theorems: `ConfigProtector.exists_unTag_iff`, `ConfigProtector.plainValue_of_readable`,
`ProtectedConfiguration.getProperty_decodes_iff`.
-/
import Plethora.Config.ProtectedConfiguration

namespace Plethora

/-- Base64 is printed in its alphabet and read from any text. -/
structure Crypto.Total (C : Crypto) : Prop extends C.Inverts where
  plain : ∀ bytes, ∀ c ∈ C.printBase64Binary bytes, base64 c = true
  total : ∀ t, ∃ bytes, C.parseBase64Binary t = .ok bytes

namespace ConfigProtector

/-! ### Tags -/

/-- A text that begins and ends with the tag is the tag, or has one at either
end: the tag begins with a character that it has nowhere else. -/
theorem checkTag_cases {value : Text} (h : checkTag value = true) : value = TAG ∨ ∃ x, value = tag x := by
  obtain ⟨hpre, hsuf⟩ := (Bool.and_eq_true _ _).mp h
  obtain ⟨r, rfl⟩ := List.isPrefixOf_iff_prefix.mp hpre
  obtain ⟨l, hl⟩ := List.isSuffixOf_iff_suffix.mp hsuf
  have hlen : l.length = r.length := by
    have hlens := congrArg List.length hl
    simp only [List.length_append] at hlens
    omega
  by_cases hle : TAG.length ≤ l.length
  · obtain ⟨x, rfl⟩ : TAG <+: l :=
      List.prefix_of_prefix_length_le (List.prefix_append TAG r) ⟨TAG, hl⟩ hle
    rw [List.append_assoc] at hl
    right
    refine ⟨x, ?_⟩
    rw [tag, List.append_assoc, List.append_cancel_left hl]
  · left
    -- the first character of the last tag stands within the first tag
    have hfirst : (TAG ++ r)[l.length]? = some '<' := by
      rw [← hl, List.getElem?_append_right le_rfl, Nat.sub_self]
      rfl
    rw [List.getElem?_append_left (by omega)] at hfirst
    have hnot : ∀ i < TAG.length, TAG[i]? = some '<' → i = 0 := by decide
    have hzero := hnot _ (by omega) hfirst
    have hr : r = [] := List.length_eq_zero_iff.mp (hlen ▸ hzero)
    rw [hr, List.append_nil]

/-- The tags come off every text but a single tag. -/
theorem exists_unTag_iff {value : Text} : (∃ w, unTag value = .ok w) ↔ value ≠ TAG := by
  by_cases h : checkTag value = true
  · rcases checkTag_cases h with rfl | ⟨x, rfl⟩
    · refine iff_of_false ?_ fun hne => hne rfl
      have he : unTag TAG = .error .indexOutOfBounds := by decide
      rintro ⟨w, hw⟩
      rw [he] at hw
      cases hw
    · refine iff_of_true ⟨x, unTag_tag x⟩ fun he => ?_
      have hlen := congrArg List.length he
      rw [tag, List.length_append, List.length_append] at hlen
      have : 0 < TAG.length := by decide
      omega
  · refine iff_of_true ⟨value, if_neg h⟩ ?_
    rintro rfl
    exact h (by decide)

theorem unTag_of_checkTag {value w : Text} (h : checkTag value = true) (hw : unTag value = .ok w) : value = tag w := by
  rcases checkTag_cases h with rfl | ⟨x, rfl⟩
  · exact absurd rfl (exists_unTag_iff.mp ⟨w, hw⟩)
  · rw [unTag_tag] at hw
    rw [Except.ok.inj hw]

/-! ### One value -/

variable (C : Crypto) (key stored : Text)

/-- Neither what is decoded nor what is decrypted is a single tag. -/
structure Readable : Prop where
  sealed : ∀ bytes, C.parseBase64Binary stored = .ok bytes → Utf8.decode bytes ≠ TAG
  protects : ∀ bytes payload cipher plain, C.parseBase64Binary stored = .ok bytes →
    unTag (Utf8.decode bytes) = .ok payload → C.parseBase64Binary payload = .ok cipher →
    C.decrypt key cipher = .ok plain → Utf8.decode plain ≠ TAG

/-- The payload of the decoded text is decrypted, and this is between the tags. -/
def Decrypted (value : Text) : Prop :=
  ∃ bytes payload cipher plain, C.parseBase64Binary stored = .ok bytes ∧ unTag (Utf8.decode bytes) = .ok payload ∧
    C.parseBase64Binary payload = .ok cipher ∧ C.decrypt key cipher = .ok plain ∧ Utf8.decode plain = tag value

variable {C key stored}

/-- The layers, once the text is decoded. -/
theorem plainValue_decoded {bytes : List UInt8} (hb : C.parseBase64Binary stored = .ok bytes) :
    plainValue C key (some stored) = (do
      let payload ← unchecked (unTag (Utf8.decode bytes))
      let plain ← unProtect C key payload
      if checkTag plain then unchecked (unTag plain) else .error (.declared .configProtectKey)) := by
  rw [plainValue, unSeal, hb]
  rfl

/-- The layers, once the payload is decoded too. -/
theorem plainValue_payload {bytes cipher : List UInt8} {payload : Text} (hb : C.parseBase64Binary stored = .ok bytes)
    (hp : unTag (Utf8.decode bytes) = .ok payload) (hc : C.parseBase64Binary payload = .ok cipher) :
    plainValue C key (some stored) = (do
      let plain ← rethrow .configProtect (C.decrypt key cipher)
      if checkTag (Utf8.decode plain) then unchecked (unTag (Utf8.decode plain))
      else .error (.declared .configProtectKey)) := by
  rw [plainValue_decoded hb, hp]
  show (unProtect C key payload >>= _) = _
  rw [unProtect, hc]
  show ((rethrow _ (C.decrypt key cipher) >>= _) >>= _) = _
  cases C.decrypt key cipher with
  | error e => rfl
  | ok plain => rfl

/-- What the protector gives is given on. -/
theorem caught_ok {value : Option Text} {plain : Text} (h : plainValue C key value = .ok plain) :
    ProtectedConfiguration.plainValue (ConfigProtector C) key value = .ok (some plain) := by
  have hmethod : (ConfigProtector C).plainValue key value = .ok plain := h
  rw [ProtectedConfiguration.plainValue, hmethod]

/-- An exception that the protector declares gives null. -/
theorem caught_declared {value : Option Text} {e : PlainValueException}
    (h : plainValue C key value = .error (.declared e)) :
    ProtectedConfiguration.plainValue (ConfigProtector C) key value = .ok none := by
  have hmethod : (ConfigProtector C).plainValue key value = .error (.declared e) := h
  rw [ProtectedConfiguration.plainValue, hmethod]

/-- Any other one ends the call. -/
theorem not_caught {value : Option Text} {e : JavaError} (h : plainValue C key value = .error (.unchecked e)) :
    ProtectedConfiguration.plainValue (ConfigProtector C) key value = .error e := by
  have hmethod : (ConfigProtector C).plainValue key value = .error (.unchecked e) := h
  rw [ProtectedConfiguration.plainValue, hmethod]

/-- A text that can be read gives null, or what is between the tags of what is
decrypted. -/
theorem plainValue_of_readable (hC : C.Total) (h : Readable C key stored) :
    ∃ r, ProtectedConfiguration.plainValue (ConfigProtector C) key (some stored) = .ok r ∧
      ∀ value, r = some value → Decrypted C key stored value := by
  obtain ⟨bytes, hb⟩ := hC.total stored
  obtain ⟨payload, hp⟩ := exists_unTag_iff.mpr (h.sealed bytes hb)
  obtain ⟨cipher, hc⟩ := hC.total payload
  have hrun := @plainValue_payload C key stored _ _ _ hb hp hc
  cases hd : C.decrypt key cipher with
  | error e =>
    rw [hd] at hrun
    exact ⟨none, caught_declared hrun, by simp⟩
  | ok plain =>
    rw [hd] at hrun
    change _ = (if checkTag (Utf8.decode plain) = true then _ else _) at hrun
    by_cases ht : checkTag (Utf8.decode plain) = true
    · obtain ⟨value, hv⟩ := exists_unTag_iff.mpr (h.protects bytes payload cipher plain hb hp hc hd)
      rw [if_pos ht, hv] at hrun
      refine ⟨some value, caught_ok hrun, fun value' hv' => ?_⟩
      rw [← Option.some.inj hv']
      exact ⟨bytes, payload, cipher, plain, hb, hp, hc, hd, unTag_of_checkTag ht hv⟩
    · rw [if_neg ht] at hrun
      exact ⟨none, caught_declared hrun, by simp⟩

/-- A text that is read without an exception can be read. -/
theorem readable_of_ok {r : Option Text}
    (h : ProtectedConfiguration.plainValue (ConfigProtector C) key (some stored) = .ok r) : Readable C key stored := by
  have hno : ∀ e, plainValue C key (some stored) ≠ .error (.unchecked e) := by
    intro e he
    rw [not_caught he] at h
    cases h
  have htag : unTag TAG = .error .indexOutOfBounds := by decide
  constructor
  · intro bytes hb he
    refine hno .indexOutOfBounds ?_
    rw [plainValue_decoded hb, he, htag]
    rfl
  · intro bytes payload cipher plain hb hp hc hd he
    refine hno .indexOutOfBounds ?_
    have hcheck : checkTag TAG = true := by decide
    rw [plainValue_payload hb hp hc, hd]
    show (if checkTag (Utf8.decode plain) = true then _ else _) = _
    rw [he, if_pos hcheck, htag]
    rfl

/-- What is protected is not changed by trimming. -/
theorem trimConfigStrings_protectedValue (hC : C.Total) {value u : Text} (h : protectedValue C key value = .ok u) :
    Util.trimConfigStrings u = u := by
  obtain ⟨p, -, rfl⟩ := protectedValue_ok h
  have hplain := hC.plain (Utf8.encode (tag p))
  refine Util.trimConfigStrings_of_none (fun c hc => ?_) fun c hc => ?_
  · have hc' := (base64_plain (hplain c hc)).1
    have hnot : c ≠ '"' ∧ c ≠ '\'' ∧ c ≠ '\t' := by
      refine ⟨?_, ?_, ?_⟩
      all_goals
        rintro rfl
        exact absurd hc' (by decide)
    simp [Util.isQuoteOrTab, hnot]
  · have := (base64_plain (hplain c hc)).1
    omega

end ConfigProtector

/-! ### The property table -/

namespace ProtectedConfiguration

open ConfigProtector

variable {ρ : Type} (C : ProtectedConfiguration ρ) (K : Crypto) (key : Text) (T : Properties)

/-- A protected name is read without an exception, with a default and without
one: as the default or null where the table has nothing, as the value where it
has a protected one, and as null or what is decrypted where it has another text. -/
def Decodes (name : Text) (dflt : Option Text) : Prop :=
  ∃ r r', C.getProperty (ConfigProtector K) key T name = .ok r ∧
    C.getPropertyOr (ConfigProtector K) key T name dflt = .ok r' ∧
    (T.getProperty name = none → r = none ∧ r' = dflt) ∧
    (∀ value u, protectedValue K key value = .ok u → T.getProperty name = some u → r = some value ∧ r' = some value) ∧
    ∀ stored, T.getProperty name = some stored →
      (∀ value, r = some value → Decrypted K key (Util.trimConfigStrings stored) value) ∧
      ∀ value, r' = some value → Decrypted K key (Util.trimConfigStrings stored) value

variable {C K key T}

/-- **A protected property is read as it should be exactly if it is there and
can be read.** -/
theorem getProperty_decodes_iff (hK : K.Total) {name : Text} (hname : C.isProtectedProperty name = true)
    (dflt : Option Text) :
    C.Decodes K key T name dflt ↔
      ∃ stored, T.getProperty name = some stored ∧ Readable K key (Util.trimConfigStrings stored) := by
  have hget : C.getProperty (ConfigProtector K) key T name =
      plainValue (ConfigProtector K) key ((T.getProperty name).map Util.trimConfigStrings) := if_pos hname
  have hgetOr : C.getPropertyOr (ConfigProtector K) key T name dflt =
      plainValue (ConfigProtector K) key (((T.getProperty name).or dflt).map Util.trimConfigStrings) := if_pos hname
  unfold Decodes
  rw [hget, hgetOr]
  cases hstored : T.getProperty name with
  | none =>
    refine iff_of_false ?_ (by simp)
    rintro ⟨r, r', hr, -⟩
    cases hr
  | some stored =>
    rw [Option.some_or, Option.map_some]
    constructor
    · rintro ⟨r, r', hr, -⟩
      exact ⟨stored, rfl, readable_of_ok hr⟩
    · rintro ⟨stored', hs, hread⟩
      cases hs
      obtain ⟨r, hr, hdecrypted⟩ := plainValue_of_readable hK hread
      refine ⟨r, r, hr, hr, by simp, ?_, ?_⟩
      · intro value u hu hsame
        cases hsame
        obtain ⟨p, hp, rfl⟩ := protectedValue_ok hu
        have hseal : ConfigProtector.plainValue K key (some (sealValue K (tag p))) = .ok value :=
          plainValue_seal hK.toInverts hp
        rw [trimConfigStrings_protectedValue hK hu] at hr
        rw [caught_ok hseal] at hr
        cases hr
        exact ⟨rfl, rfl⟩
      · intro stored' hs
        cases hs
        exact ⟨hdecrypted, hdecrypted⟩

/-- The cipher that knows one message, with a reader of Base64 that takes other
texts for no bytes. -/
def wholeMessage : Crypto := { oneMessage with parseBase64Binary := fun t => .ok ((Base64.parse t).getD []) }

theorem base64_of_mem_print {bytes : List UInt8} {c : Char} (h : c ∈ Base64.print bytes) : base64 c = true := by
  rcases Base64.mem_print h with rfl | ⟨n, hn, rfl⟩
  · decide
  · have hall : ∀ k : Fin 64, base64 (Base64.letter k) = true := by decide
    exact hall ⟨n, hn⟩

theorem total_wholeMessage : wholeMessage.Total where
  decrypt := inverts_oneMessage.decrypt
  parse := fun bytes => by
    show Except.ok ((Base64.parse (Base64.print bytes)).getD []) = _
    rw [Base64.parse_print]
    rfl
  plain := fun _ _ hc => base64_of_mem_print hc
  total := fun _ => ⟨_, rfl⟩

theorem getProperty_decodes_tag : ∃ u, protectedValue wholeMessage PARTIAL_KEY TAG = .ok u ∧
    noFile.Decodes wholeMessage PARTIAL_KEY (oneSecret u) (MARKER ++ ['x']) (some ['d']) := by
  rcases readBack total_wholeMessage.toInverts PARTIAL_KEY TAG with ⟨u, p, hu, -, hplain, -⟩ | ⟨he, -⟩
  · refine ⟨u, hu, (getProperty_decodes_iff total_wholeMessage (by decide) (some ['d'])).mpr ⟨u, rfl, ?_⟩⟩
    rw [trimConfigStrings_protectedValue total_wholeMessage hu]
    exact readable_of_ok (caught_ok hplain)
  · have hok : wholeMessage.encrypt PARTIAL_KEY plainBytes = .ok cipherBytes := by
      unfold wholeMessage oneMessage
      dsimp only
      rw [if_pos (And.intro rfl rfl)]
    rw [plainBytes] at hok
    rw [hok] at he
    cases he

/-- The tag, in Base64. -/
def sealedTag : Text := "PDo6QU5UTkE6Oj4=".toList

/-- A protected property that is not there, and one that is a sealed tag. -/
theorem not_getProperty_decodes :
    ¬ noFile.Decodes wholeMessage PARTIAL_KEY Properties.empty (MARKER ++ ['x']) (some ['d']) ∧
    ¬ noFile.Decodes wholeMessage PARTIAL_KEY (oneSecret sealedTag) (MARKER ++ ['x']) (some ['d']) := by
  constructor
  · rintro ⟨r, r', hr, -⟩
    cases hr
  · rintro ⟨r, r', hr, -⟩
    have hread : Readable wholeMessage PARTIAL_KEY (Util.trimConfigStrings sealedTag) := readable_of_ok hr
    have htrim : Util.trimConfigStrings sealedTag = sealedTag := by decide
    have hparse : Base64.parse sealedTag = some (Utf8.encode TAG) := by decide
    have hbytes : wholeMessage.parseBase64Binary sealedTag = .ok (Utf8.encode TAG) := by
      show Except.ok ((Base64.parse sealedTag).getD []) = _
      rw [hparse]
      rfl
    rw [htrim] at hread
    exact hread.sealed _ hbytes (Utf8.decode_encode TAG)

end ProtectedConfiguration

end Plethora
