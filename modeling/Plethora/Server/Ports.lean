/-
# Numbers and ports read from a configuration

`Util.getInt` reads a text as a long and takes the low 32 bits of it. A text of
an integer that a long holds and an int does not is taken for another number,
and if that is one the range check passes, for another port; longer integers
and texts that are no integer give the default. So the number is sound exactly
if the text does not denote such an integer, or one that the default happens to
be the low bits of, and the ports that modules and members are created with
exactly if it does not denote one with the low bits of a port
(`getInt_sound_iff`).

Key definitions: `Util.validPort`, `Long.integer`, `GetIntSound`, `PortOf`,
`PortsSound`.
Key theorems: `Long.valueOf_eq`, `getInt_eq`, `portOf_eq`, `getInt_sound_iff`.
-/
import Plethora.Data.ClusterMembers
import Plethora.Server.ModuleKeys

namespace Plethora

namespace Util

def validPort (port : Int32) : Bool := if port < 0 ∨ 0xFFFF < port then false else true

end Util

/-! ### The integer a text denotes -/

namespace Long

/-- The integer that a text denotes, however large. -/
def integer : Text → Option ℤ
  | '-' :: t => (magnitude t).map fun n => -Int.ofNat n
  | '+' :: t => (magnitude t).map Int.ofNat
  | t => (magnitude t).map Int.ofNat

end Long

/-- The values of an int. -/
def InInt (k : ℤ) : Prop := -2 ^ 31 ≤ k ∧ k < 2 ^ 31

instance (k : ℤ) : Decidable (InInt k) := inferInstanceAs (Decidable (_ ∧ _))

/-- The values of a long. -/
def InLong (k : ℤ) : Prop := -2 ^ 63 ≤ k ∧ k < 2 ^ 63

instance (k : ℤ) : Decidable (InLong k) := inferInstanceAs (Decidable (_ ∧ _))

/-- The bounds of the numbers behind a minus sign. -/
theorem le_iff_inLong (n : ℕ) : n ≤ 2 ^ 63 ↔ InLong (-Int.ofNat n) := by
  simp only [InLong, Int.ofNat_eq_natCast]
  omega

/-- The bounds of the numbers without one. -/
theorem lt_iff_inLong (n : ℕ) : n < 2 ^ 63 ↔ InLong (Int.ofNat n) := by
  simp only [InLong, Int.ofNat_eq_natCast]
  omega

/-- **A long is read** exactly from a text of an integer that it holds. -/
theorem Long.valueOf_eq (t : Text) :
    valueOf t = (integer t).bind fun k => if InLong k then some (Int64.ofInt k) else none := by
  have hplain : ∀ n : ℕ, (if n < 2 ^ 63 then some (Int64.ofNat n) else none) =
      if InLong (Int.ofNat n) then some (Int64.ofInt (Int.ofNat n)) else none :=
    fun n => if_congr (lt_iff_inLong n) (congrArg some Int64.ofInt_eq_ofNat.symm) rfl
  fun_cases valueOf t
  · rename_i u
    rw [integer]
    cases magnitude u with
    | none => rfl
    | some n =>
      rw [Option.map_some, Option.bind_some, Option.bind_some]
      exact if_congr (le_iff_inLong n) rfl rfl
  · rename_i u
    rw [integer]
    cases magnitude u with
    | none => rfl
    | some n =>
      rw [Option.map_some, Option.bind_some, Option.bind_some]
      exact hplain n
  · rename_i hminus hplus
    rw [integer.eq_3 t hminus hplus]
    cases magnitude t with
    | none => rfl
    | some n =>
      rw [Option.map_some, Option.bind_some, Option.bind_some]
      exact hplain n

theorem Long.not_mem_of_digits {c : Char} (hc : Character.digit c = none) : ∀ {t : Text} {n m : ℕ},
    digits n t = some m → c ∉ t
  | [], _, _, _ => List.not_mem_nil
  | d :: t, n, m, h => by
    rw [digits] at h
    obtain ⟨k, hk, hrest⟩ := Option.bind_eq_some_iff.mp h
    rw [List.mem_cons, not_or]
    refine ⟨?_, not_mem_of_digits hc hrest⟩
    rintro rfl
    rw [hc] at hk
    cases hk

theorem Long.of_magnitude {t : Text} {n : ℕ} (h : magnitude t = some n) : t ≠ [] ∧ ':' ∉ t := by
  have hcolon : Character.digit ':' = none := by decide +kernel
  unfold magnitude at h
  split at h
  · cases h
  · rename_i hne
    exact ⟨hne, not_mem_of_digits hcolon h⟩

/-- A text of an integer has no colons. -/
theorem Long.of_integer {t : Text} {k : ℤ} (h : integer t = some k) : t ≠ [] ∧ ':' ∉ t := by
  have hsign : ':' ≠ '-' ∧ ':' ≠ '+' := by decide
  unfold integer at h
  split at h
  · obtain ⟨n, hn, -⟩ := Option.map_eq_some_iff.mp h
    exact ⟨List.cons_ne_nil _ _, by rw [List.mem_cons, not_or]; exact ⟨hsign.1, (of_magnitude hn).2⟩⟩
  · obtain ⟨n, hn, -⟩ := Option.map_eq_some_iff.mp h
    exact ⟨List.cons_ne_nil _ _, by rw [List.mem_cons, not_or]; exact ⟨hsign.2, (of_magnitude hn).2⟩⟩
  · obtain ⟨n, hn, -⟩ := Option.map_eq_some_iff.mp h
    exact of_magnitude hn

/-- The integer that a text denotes; null denotes none. -/
def denoted (s : Option Text) : Option ℤ := s.bind Long.integer

/-- The number in terms of the integer. -/
theorem getInt_eq (s : Option Text) (dflt : Int32) : Util.getInt s dflt =
    match denoted s with
    | some k => if InLong k then Int32.ofInt k else dflt
    | none => dflt := by
  have hvalue : s.bind Long.valueOf =
      (denoted s).bind fun k => if InLong k then some (Int64.ofInt k) else none := by
    cases s with
    | none => rfl
    | some t => exact Long.valueOf_eq t
  rw [Util.getInt, hvalue]
  cases denoted s with
  | none => rfl
  | some k =>
    rw [Option.bind_some]
    by_cases hk : InLong k
    · simp only [if_pos hk, Option.map_some, Option.getD_some]
      rw [← Int32.toInt_inj, Int64.toInt_toInt32, Int32.toInt_ofInt, Int64.toInt_ofInt_of_le hk.1 hk.2]
    · simp only [if_neg hk, Option.map_none, Option.getD_none]

/-! ### Low bits -/

/-- An int is the low bits of an integer. -/
theorem ofInt_eq_iff (k : ℤ) (d : Int32) : Int32.ofInt k = d ↔ (2 ^ 32 : ℤ) ∣ k - d.toInt := by
  have hlo := d.le_toInt
  have hhi := d.toInt_lt
  rw [← Int32.toInt_inj, Int32.toInt_ofInt]
  show k.bmod (2 ^ 32) = d.toInt ↔ _
  constructor
  · intro h
    rw [← h]
    exact Int.dvd_self_sub_bmod
  · rintro ⟨q, hq⟩
    have hk : k = d.toInt + 2 ^ 32 * q := by omega
    rw [hk, Int.bmod_def]
    omega

theorem ofInt_zero_iff (k : ℤ) : Int32.ofInt k = 0 ↔ k % 2 ^ 32 = 0 := by
  have h0 : (0 : Int32).toInt = 0 := rfl
  rw [ofInt_eq_iff, h0, sub_zero]
  exact Int.dvd_iff_emod_eq_zero

/-- The integers of an int are kept. -/
theorem toInt_ofInt {k : ℤ} (hk : InInt k) : (Int32.ofInt k).toInt = k :=
  Int32.toInt_ofInt_of_le hk.1 hk.2

theorem toInt_inInt (d : Int32) : InInt d.toInt := ⟨d.le_toInt, d.toInt_lt⟩

theorem inLong_of_inInt {k : ℤ} (hk : InInt k) : InLong k := by
  obtain ⟨hlo, hhi⟩ := hk
  constructor <;> omega

theorem validPort_iff (port : Int32) : Util.validPort port = true ↔ 0 ≤ port.toInt ∧ port.toInt ≤ 65535 := by
  have h0 : (0 : Int32).toInt = 0 := rfl
  have hmax : (0xFFFF : Int32).toInt = 65535 := rfl
  have hrange : (port < 0 ∨ 0xFFFF < port) ↔ port.toInt < 0 ∨ 65535 < port.toInt := by
    rw [Int32.lt_iff_toInt_lt, Int32.lt_iff_toInt_lt, h0, hmax]
  unfold Util.validPort
  split
  · rename_i hout
    rw [hrange] at hout
    refine iff_of_false Bool.false_ne_true ?_
    omega
  · rename_i hin
    rw [hrange] at hin
    refine iff_of_true rfl ?_
    omega

/-- The low bits of an integer are a port. -/
theorem validPort_ofInt_iff (k : ℤ) : Util.validPort (Int32.ofInt k) = true ↔ k % 2 ^ 32 ≤ 65535 := by
  have hlow : (Int32.ofInt k).toInt = k.bmod (2 ^ 32) := Int32.toInt_ofInt
  rw [validPort_iff, hlow, Int.bmod_def]
  omega

/-! ### Ports of modules and members -/

/-- A module or a member with this port text is created with this port. -/
inductive PortOf : Option Text → Int32 → Prop
  | jmx {hashOrder : List (Text × Option Text) → List (Text × Option Text)} {T : Properties} {keySet : List Text}
      {modules : List Modules.ModuleArguments} {ports : List (Text × Option Text)} {created : Modules.ModuleArguments}
      (init : Modules.initJMXModules hashOrder T keySet = .ok modules)
      (texts : Modules.getConfiguration T keySet "jmxmodule." ".port" = .ok ports) (mem : created ∈ modules) :
      PortOf (ports.lookup created.module).join created.port
  | web {hashOrder : List (Text × Option Text) → List (Text × Option Text)} {T : Properties} {keySet : List Text}
      {modules : List Modules.ModuleArguments} {ports : List (Text × Option Text)} {created : Modules.ModuleArguments}
      (init : Modules.initWebModules hashOrder T keySet = .ok modules)
      (texts : Modules.getConfiguration T keySet "webmodule." ".port" = .ok ports) (mem : created ∈ modules) :
      PortOf (ports.lookup created.module).join created.port
  | member {memberitem : Text} {created : ClusterMember} (item : Cluster.memberOf memberitem = some created) :
      PortOf ((Text.split ':' memberitem).tail.head?) created.port

/-- Every port is the number of its text, with 0 for a default. -/
theorem portOf_eq {s : Option Text} {port : Int32} (h : PortOf s port) : port = Util.getInt s 0 := by
  cases h with
  | @jmx hashOrder T keySet _ ports created init texts mem =>
    unfold Modules.initJMXModules at init
    cases hhosts : Modules.getConfiguration T keySet "jmxmodule." ".host" with
    | error e =>
      rw [hhosts] at init
      cases init
    | ok hosts =>
      rw [hhosts, texts] at init
      cases init
      obtain ⟨host, -, rfl⟩ := List.mem_map.mp mem
      rfl
  | @web hashOrder T keySet _ ports created init texts mem =>
    unfold Modules.initWebModules at init
    cases hhosts : Modules.getConfiguration T keySet "webmodule." ".host" with
    | error e =>
      rw [hhosts] at init
      cases init
    | ok hosts =>
      cases hpaths : Modules.getConfiguration T keySet "webmodule." ".path" with
      | error e =>
        rw [hhosts, texts, hpaths] at init
        cases init
      | ok paths =>
        rw [hhosts, texts, hpaths] at init
        cases init
        obtain ⟨host, -, rfl⟩ := List.mem_map.mp mem
        rfl
  | @member memberitem _ item =>
    unfold Cluster.memberOf at item
    split at item
    · cases item
    · rename_i hostname items hsplit
      cases item
      rw [hsplit]
      cases items with
      | nil => rfl
      | cons portText items => rfl

/-- A text of an integer can be a member's port text. -/
theorem exists_portOf {s : Option Text} {k : ℤ} (hk : denoted s = some k) : ∃ port, PortOf s port := by
  cases s with
  | none => cases hk
  | some t =>
    obtain ⟨hne, hcolon⟩ := Long.of_integer hk
    have hsplit : Text.split ':' ("localhost".toList ++ ':' :: t) = ["localhost".toList, t] := by
      have hplain : ∀ p ∈ ["localhost".toList, t], ':' ∉ p := by simpa using hcolon
      have hpieces := Text.split_intercalate (List.cons_ne_nil _ _) hplain hne
      rwa [List.intercalate_cons_cons, List.intercalate_singleton, List.append_assoc] at hpieces
    have hmember : Cluster.memberOf ("localhost".toList ++ ':' :: t) =
        some ⟨"localhost".toList, Util.getInt (some t) 0⟩ := by
      rw [Cluster.memberOf, hsplit]
      rfl
    have hport := PortOf.member hmember
    rw [hsplit] at hport
    exact ⟨_, hport⟩

/-! ### Soundness -/

/-- What is claimed of `getInt(s, def)`. -/
structure GetIntSound (s : Option Text) (dflt : Int32) : Prop where
  denotes : Util.getInt s dflt ≠ dflt → denoted s = some (Util.getInt s dflt).toInt
  refuses : ∀ k, denoted s = some k → ¬ InInt k → Util.getInt s dflt = dflt

/-- The port is the one that its text denotes, or the default where it denotes
no int. -/
def PortRight (s : Option Text) (port : Int32) : Prop :=
  (denoted s = some port.toInt ∧ 0 ≤ port.toInt ∧ port.toInt ≤ 65535) ∨
    (∀ k, denoted s = some k → ¬ InInt k) ∧ port = 0

/-- The ports created for a text that pass the range check are right. -/
def PortsSound (s : Option Text) : Prop :=
  ∀ port, PortOf s port → Util.validPort port = true → PortRight s port

/-- The text does not denote an integer of a long outside of an int, but for
those with the low bits of the default. -/
theorem getIntSound_iff (s : Option Text) (dflt : Int32) :
    GetIntSound s dflt ↔
      ∀ k, denoted s = some k → InLong k → InInt k ∨ (2 ^ 32 : ℤ) ∣ k - dflt.toInt := by
  constructor
  · rintro ⟨-, hrefuses⟩ k hk hlong
    by_cases hint : InInt k
    · exact .inl hint
    · have hdflt := hrefuses k hk hint
      rw [getInt_eq, hk] at hdflt
      simp only [if_pos hlong] at hdflt
      exact .inr ((ofInt_eq_iff k dflt).mp hdflt)
  · intro h
    have heq := getInt_eq s dflt
    cases hs : denoted s with
    | none =>
      rw [hs] at heq
      refine ⟨fun hne => absurd heq hne, fun k hk => ?_⟩
      rw [hs] at hk
      cases hk
    | some k =>
      rw [hs] at heq
      by_cases hlong : InLong k
      · simp only [if_pos hlong] at heq
        rcases h k hs hlong with hint | hlow
        · refine ⟨fun _ => by rw [heq, toInt_ofInt hint, hs], ?_⟩
          intro k' hk' hout
          cases hs.symm.trans hk'
          exact absurd hint hout
        · have hdflt := heq.trans ((ofInt_eq_iff k dflt).mpr hlow)
          exact ⟨fun hne => absurd hdflt hne, fun _ _ _ => hdflt⟩
      · simp only [if_neg hlong] at heq
        exact ⟨fun hne => absurd heq hne, fun _ _ _ => heq⟩

/-- The text does not denote an integer of a long outside of an int, but for
those whose low bits are no port other than the default. -/
theorem portsSound_iff (s : Option Text) :
    PortsSound s ↔ ∀ k, denoted s = some k → InLong k → InInt k ∨ k % 2 ^ 32 = 0 ∨ 65535 < k % 2 ^ 32 := by
  constructor
  · intro h k hk hlong
    obtain ⟨port, hport⟩ := exists_portOf hk
    have heq := portOf_eq hport
    rw [getInt_eq, hk] at heq
    simp only [if_pos hlong] at heq
    by_cases hvalid : Util.validPort port = true
    · rcases h port hport hvalid with ⟨hright, -, -⟩ | ⟨hout, hzero⟩
      · cases hk.symm.trans hright
        exact .inl (toInt_inInt port)
      · rw [heq, ofInt_zero_iff] at hzero
        exact .inr (.inl hzero)
    · rw [heq, validPort_ofInt_iff] at hvalid
      exact .inr (.inr (by omega))
  · intro h port hport hvalid
    have heq := portOf_eq hport
    rw [getInt_eq] at heq
    cases hs : denoted s with
    | none =>
      rw [hs] at heq
      refine .inr ⟨fun k hk => ?_, heq⟩
      cases hs.symm.trans hk
    | some k =>
      rw [hs] at heq
      by_cases hlong : InLong k
      · simp only [if_pos hlong] at heq
        have hlow := hvalid
        rw [heq, validPort_ofInt_iff] at hlow
        by_cases hint : InInt k
        · left
          have hk : port.toInt = k := by rw [heq, toInt_ofInt hint]
          rw [validPort_iff] at hvalid
          exact ⟨by rw [hk, hs], hvalid⟩
        · have hzero : k % 2 ^ 32 = 0 := by
            rcases h k hs hlong with h | h | h
            · exact absurd h hint
            · exact h
            · omega
          refine .inr ⟨fun k' hk' => ?_, ?_⟩
          · cases hs.symm.trans hk'
            exact hint
          · rw [heq, ofInt_zero_iff]
            exact hzero
      · simp only [if_neg hlong] at heq
        refine .inr ⟨fun k' hk' => ?_, heq⟩
        cases hs.symm.trans hk'
        exact fun hint => hlong (inLong_of_inInt hint)

/-- **The number and the ports are sound** exactly if the text does not denote
an integer that a long holds and an int does not, but for those that wrap around
to the default, or to no other port. -/
theorem getInt_sound_iff (s : Option Text) (dflt : Int32) :
    (GetIntSound s dflt ↔
      ∀ k, denoted s = some k → InLong k → InInt k ∨ (2 ^ 32 : ℤ) ∣ k - dflt.toInt) ∧
    (PortsSound s ↔
      ∀ k, denoted s = some k → InLong k → InInt k ∨ k % 2 ^ 32 = 0 ∨ 65535 < k % 2 ^ 32) :=
  ⟨getIntSound_iff s dflt, portsSound_iff s⟩

/-- A port beyond the ints is taken for port 80. -/
theorem not_getInt_sound_wrapped :
    ¬ GetIntSound (some "4294967376".toList) 0 ∧ ¬ PortsSound (some "4294967376".toList) := by
  have hdenoted : denoted (some "4294967376".toList) = some 4294967376 := by decide +kernel
  rw [getIntSound_iff, portsSound_iff]
  constructor
  · intro h
    have := h _ hdenoted (by decide)
    revert this
    decide
  · intro h
    have := h _ hdenoted (by decide)
    revert this
    decide

end Plethora
