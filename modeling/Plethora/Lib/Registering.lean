/-
# Registering the first of each name

A loop over keys, several of which may stand for one name: for a name that is
registered already a key is skipped, for a new one an entry is built and added.
Building an entry can fail, or give nothing to add, and skipping can fail too;
either failure ends the loop.

What the loop leaves depends on the order of the keys only where it fails. It
comes to its end if every entry can be built and no key fails to be skipped
(`exists_registerAll`), and then each name has the entry built for it
(`registerAll_ok`). If a failure is caught, what was registered before it stays
(`registered`).

Key definitions: `registerAll`, `registered`, `Registers`.
Key theorems: `registerAll_ok`, `registerAll_new`, `registered_invariant`, `exists_registerAll`.
-/
import Mathlib.Tactic.Common

namespace Registering

variable {K N R B ε : Type} [DecidableEq N]

/-- The loop, for a registry `R` that `get` reads. -/
def registerAll (name : K → N) (get : R → N → Option B) (skip : K → Except ε Unit) (add : R → N → Except ε R) :
    List K → R → Except ε R
  | [], r => .ok r
  | k :: keys, r =>
    if (get r (name k)).isSome then
      match skip k with
      | .error e => .error e
      | .ok () => registerAll name get skip add keys r
    else
      match add r (name k) with
      | .error e => .error e
      | .ok r' => registerAll name get skip add keys r'

/-- What the loop has registered where it ends, if only by a failure. -/
def registered (name : K → N) (get : R → N → Option B) (skip : K → Except ε Unit) (add : R → N → Except ε R) :
    List K → R → R
  | [], r => r
  | k :: keys, r =>
    if (get r (name k)).isSome then
      match skip k with
      | .error _ => r
      | .ok () => registered name get skip add keys r
    else
      match add r (name k) with
      | .error _ => r
      | .ok r' => registered name get skip add keys r'

/-- Adding a name is building its entry and putting that into the registry. -/
structure Registers (get : R → N → Option B) (build : N → Except ε (Option B)) (add : R → N → Except ε R) :
    Prop where
  failed : ∀ r n e, build n = .error e → add r n = .error e
  added : ∀ r n b, build n = .ok b → ∃ r', add r n = .ok r' ∧
    ∀ m, get r' m = if m = n then b.orElse (fun _ => get r m) else get r m

variable {name : K → N} {get : R → N → Option B} {skip : K → Except ε Unit} {add : R → N → Except ε R}
  {build : N → Except ε (Option B)}

/-- The entry built for a name, if any. -/
def built (build : N → Except ε (Option B)) (n : N) : Option B :=
  match build n with
  | .ok b => b
  | .error _ => none

omit [DecidableEq N] in
theorem build_of_built {n : N} {b : B} (h : built build n = some b) : build n = .ok (some b) := by
  unfold built at h
  cases hb : build n with
  | error e =>
    rw [hb] at h
    cases h
  | ok b' =>
    rw [hb] at h
    exact congrArg _ h

omit [DecidableEq N] in
/-- What the loop does at a key, if it comes to its end. -/
theorem registerAll_cons {k : K} {keys : List K} {r r' : R} (h : registerAll name get skip add (k :: keys) r = .ok r') :
    (get r (name k)).isSome = true ∧ skip k = .ok () ∧ registerAll name get skip add keys r = .ok r' ∨
    get r (name k) = none ∧ ∃ r₁, add r (name k) = .ok r₁ ∧ registerAll name get skip add keys r₁ = .ok r' := by
  unfold registerAll at h
  by_cases hk : (get r (name k)).isSome = true
  · rw [if_pos hk] at h
    cases hskip : skip k with
    | error e =>
      rw [hskip] at h
      cases h
    | ok u =>
      rw [hskip] at h
      exact Or.inl ⟨hk, rfl, h⟩
  · rw [if_neg hk] at h
    cases hadd : add r (name k) with
    | error e =>
      rw [hadd] at h
      cases h
    | ok r₁ =>
      rw [hadd] at h
      exact Or.inr ⟨by simpa using hk, r₁, rfl, h⟩

/-- What was added was built, and is there. -/
theorem Registers.of_added (h : Registers get build add) {r r₁ : R} {n : N} (hadd : add r n = .ok r₁) :
    ∃ b, build n = .ok b ∧ ∀ m, get r₁ m = if m = n then b.orElse (fun _ => get r m) else get r m := by
  cases hb : build n with
  | error e =>
    rw [h.failed r n e hb] at hadd
    cases hadd
  | ok b =>
    obtain ⟨r', hadd', hput⟩ := h.added r n b hb
    rw [hadd] at hadd'
    cases hadd'
    exact ⟨b, rfl, hput⟩

/-- **What the loop registers.** -/
theorem registerAll_ok (h : Registers get build add) : ∀ {keys : List K} {r r' : R},
    registerAll name get skip add keys r = .ok r' →
    (∀ k ∈ keys, (get r (name k)).isSome = true ∨ ∃ b, build (name k) = .ok b) ∧
    ∀ n, get r' n = (get r n).orElse fun _ => if n ∈ keys.map name then built build n else none
  | [], r, r', hr => by
    cases hr
    refine ⟨fun k hk => absurd hk List.not_mem_nil, fun n => ?_⟩
    cases get r n <;> rfl
  | k :: keys, r, r', hr => by
    rcases registerAll_cons hr with ⟨hk, -, hr⟩ | ⟨hnone, r₁, hadd, hr⟩
    · obtain ⟨hbuilt, hget⟩ := registerAll_ok h hr
      refine ⟨List.forall_mem_cons.mpr ⟨Or.inl hk, hbuilt⟩, fun n => ?_⟩
      rw [hget n]
      cases hn : get r n with
      | some b => rfl
      | none =>
        have hne : n ≠ name k := by
          rintro rfl
          rw [hn] at hk
          cases hk
        simp [hne]
    · obtain ⟨b, hb, hput⟩ := h.of_added hadd
      obtain ⟨hbuilt, hget⟩ := registerAll_ok h hr
      refine ⟨List.forall_mem_cons.mpr ⟨Or.inr ⟨b, hb⟩, fun k' hk' => ?_⟩, fun n => ?_⟩
      · by_cases hsame : name k' = name k
        · exact Or.inr ⟨b, hsame ▸ hb⟩
        · have hk'' := hbuilt k' hk'
          rwa [hput, if_neg hsame] at hk''
      · rw [hget n, hput]
        by_cases hn : n = name k
        · subst hn
          have hbuilt' : built build (name k) = b := by rw [built, hb]
          rw [if_pos rfl, hnone, List.map_cons, if_pos List.mem_cons_self, hbuilt']
          cases b with
          | some b => rfl
          | none =>
            by_cases hm : name k ∈ keys.map name
            · simp [hm]
            · simp [hm]
        · rw [if_neg hn]
          simp [hn]

/-- From a registry without entries, it registers every name of a key. -/
theorem registerAll_new (h : Registers get build add) {keys : List K} {r r' : R} (hnew : ∀ n, get r n = none)
    (hr : registerAll name get skip add keys r = .ok r') :
    (∀ k ∈ keys, ∃ b, build (name k) = .ok b) ∧
    ∀ n, get r' n = if n ∈ keys.map name then built build n else none := by
  obtain ⟨hbuilt, hget⟩ := registerAll_ok h hr
  refine ⟨fun k hk => (hbuilt k hk).resolve_left ?_, fun n => ?_⟩
  · rw [hnew]
    exact Bool.false_ne_true
  · rw [hget n, hnew]
    rfl

omit [DecidableEq N] in
/-- Without a failure, it is what the loop gives. -/
theorem registered_of_ok : ∀ {keys : List K} {r r' : R}, registerAll name get skip add keys r = .ok r' →
    registered name get skip add keys r = r'
  | [], r, r', h => Except.ok.inj h
  | k :: keys, r, r', h => by
    unfold registered
    rcases registerAll_cons h with ⟨hk, hskip, h⟩ | ⟨hnone, r₁, hadd, h⟩
    · rw [if_pos hk, hskip]
      exact registered_of_ok h
    · rw [hnone, Option.isSome_none, if_neg Bool.false_ne_true, hadd]
      exact registered_of_ok h

omit [DecidableEq N] in
/-- What adding an entry keeps holds of all that is registered. -/
theorem registered_invariant {P : R → Prop} (hadd : ∀ r n r', P r → add r n = .ok r' → P r') :
    ∀ (keys : List K) {r : R}, P r → P (registered name get skip add keys r)
  | [], r, h => h
  | k :: keys, r, h => by
    unfold registered
    by_cases hk : (get r (name k)).isSome = true
    · rw [if_pos hk]
      cases skip k with
      | error e => exact h
      | ok u => exact registered_invariant hadd keys h
    · rw [if_neg hk]
      cases hr : add r (name k) with
      | error e => exact h
      | ok r' => exact registered_invariant hadd keys (hadd r _ r' h hr)

/-- The loop comes to its end if the entry of every name that is not registered
yet can be built. -/
theorem exists_registerAll (h : Registers get build add) : ∀ (keys : List K) (r : R),
    (∀ k ∈ keys, skip k = .ok ()) →
    (∀ k ∈ keys, (get r (name k)).isSome = true ∨ ∃ b, build (name k) = .ok b) →
    ∃ r', registerAll name get skip add keys r = .ok r'
  | [], r, _, _ => ⟨r, rfl⟩
  | k :: keys, r, hskip, hbuild => by
    have hskip' : ∀ k ∈ keys, skip k = .ok () := fun k hk => hskip k (List.mem_cons_of_mem _ hk)
    have hbuild' := fun k hk => hbuild k (List.mem_cons_of_mem _ hk)
    unfold registerAll
    by_cases hk : (get r (name k)).isSome = true
    · rw [if_pos hk, hskip k List.mem_cons_self]
      exact exists_registerAll h keys r hskip' hbuild'
    · obtain ⟨b, hb⟩ := (hbuild k List.mem_cons_self).resolve_left hk
      obtain ⟨r₁, hadd, hput⟩ := h.added r _ b hb
      rw [if_neg hk, hadd]
      refine exists_registerAll h keys r₁ hskip' fun k' hk' => ?_
      by_cases hsame : name k' = name k
      · exact Or.inr ⟨b, hsame ▸ hb⟩
      · rw [hput, if_neg hsame]
        exact hbuild' k' hk'

end Registering
