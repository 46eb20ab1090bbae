/-
# The arguments of a C++ agent's requests

Every request text is escaped before it is looked at. The escaping alone is
sound: of the five characters only the ampersand is left, at the beginning of
entities, and no two texts are escaped to the same (`validateInput_lossless`).
But it comes before the request is split at `&`: every separator becomes an
entity too, and what is after it is an argument whose name begins with `amp;`.
So the arguments of a request arrive exactly if it has one, and that none of
the five characters (`arrive_iff`).

Key definitions: `Cpp.RequestHandler.entities`, `Cpp.RequestHandler.Arguments`,
`Cpp.RequestHandler.Arrive`.
Key theorems: `Cpp.RequestHandler.validateInput_lossless`, `Cpp.RequestHandler.arrive_iff`.
-/
import Plethora.Agents.CppHandler
import Plethora.Lib.Entities

namespace Plethora

namespace Cpp

namespace RequestHandler

/-! ### Escaping -/

/-- The entities of `validateInput`. -/
def entities : Entities.Table Char where
  mark := '&'
  entries :=
    [("amp;".toList, '&'), ("apos;".toList, '\''), ("quot;".toList, '"'), ("lt;".toList, '<'), ("gt;".toList, '>')]
  apart := by decide
  unmarked := by decide
  marked := by decide

theorem entity_eq_name (c : Char) : entity c = entities.name c := by
  unfold entity Entities.Table.name entities
  by_cases h1 : c = '&'
  · simp [h1]
  by_cases h2 : c = '\''
  · simp [h2]
  by_cases h3 : c = '"'
  · simp [h3]
  by_cases h4 : c = '<'
  · simp [h4]
  by_cases h5 : c = '>'
  · simp [h5]
  simp [h1, h2, h3, h4, h5, Ne.symm h1, Ne.symm h2, Ne.symm h3, Ne.symm h4, Ne.symm h5]

theorem validateInput_eq (t : Text) : validateInput t = entities.escape t := by
  rw [validateInput, Entities.Table.escape]
  congr 1
  funext c
  rw [entity_eq_name]
  cases entities.name c with
  | none => rfl
  | some e => rfl

theorem validateInput_injective : Function.Injective validateInput := fun s t h =>
  Entities.Table.escape_injective ((validateInput_eq s).symm.trans (h.trans (validateInput_eq t)))

/-- **The escaping is safe and loses nothing.** -/
theorem validateInput_lossless (s : Text) :
    (∀ c ∈ validateInput s, c ≠ '<' ∧ c ≠ '>' ∧ c ≠ '\'' ∧ c ≠ '"') ∧
    (∀ before after, validateInput s = before ++ '&' :: after → ∃ e ∈ entities.entries, e.1 <+: after) ∧
    entities.restore (validateInput s) = s ∧ ∀ t, validateInput t = validateInput s → t = s := by
  rw [validateInput_eq]
  have hgone : ∀ d ∈ ['<', '>', '\'', '"'], ∀ c ∈ entities.escape s, c ≠ d := by
    intro d hd c hc
    have hnamed : ∀ d ∈ ['<', '>', '\'', '"'], entities.name d ≠ none ∧ d ≠ '&' ∧ ∀ e ∈ entities.entries, d ∉ e.1 := by
      decide
    obtain ⟨hname, hmark, hnames⟩ := hnamed d hd
    rintro rfl
    exact Entities.Table.not_mem_escape hname hmark hnames s hc
  refine ⟨fun c hc => ?_, fun before after h => Entities.Table.entity_of_mark h, Entities.Table.restore_escape s,
    fun t ht => Entities.Table.escape_injective ((validateInput_eq t).symm.trans ht)⟩
  exact ⟨hgone '<' (by decide) c hc, hgone '>' (by decide) c hc, hgone '\'' (by decide) c hc,
    hgone '"' (by decide) c hc⟩

/-- What looks escaped is escaped once more. -/
example : validateInput "a<&lt;".toList = "a&lt;&amp;lt;".toList := by decide

/-! ### Requests with several arguments -/

/-- The arguments of a request, in order. -/
structure Arguments where
  args : List (Text × Text)
  nonempty : args ≠ []
  distinct : (args.map (·.1)).Nodup
  separable : ∀ a ∈ args, '&' ∉ a.1 ∧ '&' ∉ a.2 ∧ '=' ∉ a.1

def argument (a : Text × Text) : Text := a.1 ++ '=' :: a.2

/-- `name1=value1&name2=value2&...`. -/
def requestOf (args : List (Text × Text)) : Text := (['&'] : Text).intercalate (args.map argument)

/-- The argument map has the arguments of the request, escaped, and no others. -/
def Arrive (r : Arguments) : Prop :=
  ∀ name, (buildQueryArgMap (validateInput (requestOf r.args))).lookup name =
    (r.args.map fun a => (validateInput a.1, validateInput a.2)).lookup name

/-- A text that is left as it is. -/
def Unescaped (t : Text) : Prop := ∀ c ∈ t, entity c = none

instance (t : Text) : Decidable (Unescaped t) := inferInstanceAs (Decidable (∀ c ∈ t, entity c = none))

theorem validateInput_of_unescaped {t : Text} (h : Unescaped t) : validateInput t = t := by
  rw [validateInput_eq]
  exact Entities.Table.escape_of_plain fun c hc => (entity_eq_name c).symm.trans (h c hc)

theorem not_mem_of_unescaped {t : Text} (h : Unescaped t) : '&' ∉ t := fun hm => by
  cases h '&' hm

theorem unescaped_of_not_mem {t : Text} (h : '&' ∉ validateInput t) : Unescaped t := by
  intro c hc
  by_contra hname
  rw [entity_eq_name] at hname
  refine h ?_
  rw [validateInput_eq]
  exact Entities.Table.mark_mem_escape hc hname

theorem unescaped_argument {a : Text × Text} : Unescaped (argument a) ↔ Unescaped a.1 ∧ Unescaped a.2 := by
  have heq : entity '=' = none := rfl
  simp only [Unescaped, argument, List.forall_mem_append, List.forall_mem_cons, heq, true_and]

theorem argument_ne_nil (a : Text × Text) : argument a ≠ [] := List.append_ne_nil_of_right_ne_nil _ (List.cons_ne_nil _ _)

theorem not_mem_of_mem_split : ∀ {t p : Text}, p ∈ split '&' t → '&' ∉ p
  | [], _, h => absurd h List.not_mem_nil
  | c :: t, p, h => by
    unfold split at h
    by_cases hc : c = '&'
    · rw [if_pos hc] at h
      rcases List.mem_cons.mp h with rfl | h
      · exact List.not_mem_nil
      · exact not_mem_of_mem_split h
    · rw [if_neg hc] at h
      cases hs : split '&' t with
      | nil =>
        rw [hs] at h
        rw [List.mem_singleton.mp h, List.mem_singleton]
        exact Ne.symm hc
      | cons q qs =>
        rw [hs] at h
        have ih : ∀ r ∈ q :: qs, '&' ∉ r := fun r hr => not_mem_of_mem_split (hs ▸ hr)
        rcases List.mem_cons.mp h with rfl | h
        · rw [List.mem_cons, not_or]
          exact ⟨Ne.symm hc, ih q List.mem_cons_self⟩
        · exact ih p (List.mem_cons_of_mem _ h)

/-- In the argument map there is no ampersand. -/
theorem not_mem_of_lookup {request name value : Text} (h : (buildQueryArgMap request).lookup name = some value) :
    '&' ∉ name ∧ '&' ∉ value := by
  obtain ⟨p, hp, he⟩ := List.mem_map.mp (mem_of_lookup h)
  obtain ⟨rfl, rfl⟩ := Prod.mk.inj he
  have hamp := not_mem_of_mem_split hp
  refine ⟨fun hm => hamp ((List.takeWhile_sublist _).subset hm), fun hm => hamp ?_⟩
  exact (List.dropWhile_suffix _).subset ((List.tail_suffix _).subset hm)

theorem requestOf_cons (a b : Text × Text) (args : List (Text × Text)) :
    requestOf (a :: b :: args) = argument a ++ '&' :: requestOf (b :: args) := by
  rw [requestOf, List.map_cons, List.map_cons, List.intercalate_cons_cons, ← List.map_cons, ← requestOf]
  simp

/-- **The pieces of an escaped request**: every argument but the first begins
with what is left of the entity before it. -/
theorem split_requestOf : ∀ {args : List (Text × Text)} {a : Text × Text} {x : Text}, '&' ∉ x →
    (∀ b ∈ a :: args, Unescaped b.1 ∧ Unescaped b.2) →
    split '&' (x ++ validateInput (requestOf (a :: args))) =
      (x ++ argument a) :: args.map fun b => "amp;".toList ++ argument b
  | [], a, x, hx, h => by
    have ha := unescaped_argument.mpr (h a List.mem_cons_self)
    have hone : requestOf [a] = argument a := List.intercalate_singleton
    rw [hone, validateInput_of_unescaped ha, List.map_nil]
    refine split_of_not_mem (List.append_ne_nil_of_right_ne_nil x (argument_ne_nil a)) ?_
    rw [List.mem_append, not_or]
    exact ⟨hx, not_mem_of_unescaped ha⟩
  | b :: args, a, x, hx, h => by
    obtain ⟨ha, hrest⟩ := List.forall_mem_cons.mp h
    have ha' := unescaped_argument.mpr ha
    have ih := @split_requestOf args b "amp;".toList (by decide) hrest
    have hamp : '&' ∉ x ++ argument a := by
      rw [List.mem_append, not_or]
      exact ⟨hx, not_mem_of_unescaped ha'⟩
    have hescaped : validateInput ('&' :: requestOf (b :: args)) =
        '&' :: ("amp;".toList ++ validateInput (requestOf (b :: args))) := rfl
    rw [requestOf_cons, validateInput_append ha', hescaped, ← List.append_assoc,
      split_append (List.append_ne_nil_of_right_ne_nil x (argument_ne_nil a)) hamp, ih, List.map_cons]

/-- The argument map of a request whose texts are left as they are. -/
theorem buildQueryArgMap_requestOf {a : Text × Text} {args : List (Text × Text)}
    (h : ∀ b ∈ a :: args, Unescaped b.1 ∧ Unescaped b.2) (heq : ∀ b ∈ a :: args, '=' ∉ b.1) :
    buildQueryArgMap (validateInput (requestOf (a :: args))) = a :: args.map fun b => ("amp;".toList ++ b.1, b.2) := by
  have hsplit := @split_requestOf args a [] List.not_mem_nil h
  rw [List.nil_append, List.nil_append] at hsplit
  obtain ⟨ha, hargs⟩ := List.forall_mem_cons.mp heq
  rw [buildQueryArgMap, hsplit, List.map_cons, argument, pair_append ha, List.map_map]
  refine congrArg _ (List.map_congr_left fun b hb => ?_)
  have hb' : '=' ∉ "amp;".toList ++ b.1 := by
    rw [List.mem_append, not_or]
    exact ⟨by decide, hargs b hb⟩
  show pair '=' ("amp;".toList ++ (b.1 ++ '=' :: b.2)) = _
  rw [← List.append_assoc, pair_append hb']

/-- The names of arguments after the first are none of the map's, as the
shortest of them has nothing to come from. -/
theorem no_second {names rest : List Text} {first : Text} (hnames : names = first :: rest) (hdistinct : names.Nodup)
    (h : ∀ n ∈ rest, n = first ∨ ∃ m ∈ rest, n = "amp;".toList ++ m) : rest = [] := by
  subst hnames
  have hfirst : ∀ n ∈ rest, n ≠ first := fun n hn he => (List.nodup_cons.mp hdistinct).1 (he ▸ hn)
  have hnone : ∀ (k : ℕ) (n : Text), n ∈ rest → n.length ≠ k := by
    intro k
    induction k using Nat.strong_induction_on with
    | _ k ih =>
      intro n hn hk
      obtain ⟨m, hm, rfl⟩ := (h n hn).resolve_left (hfirst n hn)
      refine ih m.length ?_ m hm rfl
      rw [← hk, List.length_append]
      exact Nat.lt_add_of_pos_left (by decide)
  exact List.eq_nil_iff_forall_not_mem.mpr fun n hn => hnone _ n hn rfl

/-- **The arguments of a request arrive exactly if there is one, and nothing in
it is escaped.** -/
theorem arrive_iff (r : Arguments) :
    Arrive r ↔ ∃ a, r.args = [a] ∧ ∀ c ∈ a.1 ++ a.2, entity c = none := by
  have heq : ∀ b ∈ r.args, '=' ∉ b.1 := fun b hb => (r.separable b hb).2.2
  constructor
  · intro h
    have hescaped : ((r.args.map fun a => (validateInput a.1, validateInput a.2)).map (·.1)).Nodup := by
      have := r.distinct.map validateInput_injective
      rwa [List.map_map] at this ⊢
    have hplain : ∀ a ∈ r.args, Unescaped a.1 ∧ Unescaped a.2 := by
      intro a ha
      have hmem : (validateInput a.1, validateInput a.2) ∈ r.args.map fun a => (validateInput a.1, validateInput a.2) :=
        List.mem_map_of_mem ha
      have hlookup := (h (validateInput a.1)).trans (lookup_of_mem hescaped hmem)
      obtain ⟨h1, h2⟩ := not_mem_of_lookup hlookup
      exact ⟨unescaped_of_not_mem h1, unescaped_of_not_mem h2⟩
    obtain ⟨a, args, hargs⟩ := List.exists_cons_of_ne_nil r.nonempty
    have hmap := buildQueryArgMap_requestOf (hargs ▸ hplain) (hargs ▸ heq)
    have hrest : args.map (·.1) = [] := by
      have hnames : r.args.map (·.1) = a.1 :: args.map (·.1) := by rw [hargs, List.map_cons]
      refine no_second hnames r.distinct fun n hn => ?_
      obtain ⟨b, hb, rfl⟩ := List.mem_map.mp hn
      have hbm : b ∈ r.args := hargs ▸ List.mem_cons_of_mem _ hb
      have hmem : (validateInput b.1, validateInput b.2) ∈ r.args.map fun a => (validateInput a.1, validateInput a.2) :=
        List.mem_map_of_mem hbm
      have hlookup := mem_of_lookup ((h (validateInput b.1)).trans (lookup_of_mem hescaped hmem))
      rw [hargs, hmap, validateInput_of_unescaped (hplain b hbm).1, validateInput_of_unescaped (hplain b hbm).2] at hlookup
      rcases List.mem_cons.mp hlookup with he | hlookup
      · exact Or.inl (congrArg Prod.fst he)
      · obtain ⟨d, hd, he⟩ := List.mem_map.mp hlookup
        exact Or.inr ⟨d.1, List.mem_map_of_mem hd, (congrArg Prod.fst he).symm⟩
    obtain rfl := List.map_eq_nil_iff.mp hrest
    refine ⟨a, hargs, ?_⟩
    obtain ⟨h1, h2⟩ := hplain a (hargs ▸ List.mem_cons_self)
    exact List.forall_mem_append.mpr ⟨h1, h2⟩
  · rintro ⟨a, hargs, ha⟩ name
    obtain ⟨h1, h2⟩ := List.forall_mem_append.mp ha
    have hplain : ∀ b ∈ [a], Unescaped b.1 ∧ Unescaped b.2 := by
      intro b hb
      rw [List.mem_singleton.mp hb]
      exact ⟨h1, h2⟩
    rw [hargs] at heq ⊢
    rw [buildQueryArgMap_requestOf hplain heq, List.map_singleton, validateInput_of_unescaped h1,
      validateInput_of_unescaped h2, List.map_nil]

/-- `set=uno&with=42`. -/
def setWith : Arguments where
  args := [("set".toList, "uno".toList), ("with".toList, "42".toList)]
  nonempty := List.cons_ne_nil _ _
  distinct := by decide
  separable := by decide

/-- The value to set does not arrive: it goes under another name. -/
theorem not_arrive_setWith : ¬ (∀ r, Arrive r) ∧
    (buildQueryArgMap (validateInput (requestOf setWith.args))).lookup "with".toList = none ∧
    (buildQueryArgMap (validateInput (requestOf setWith.args))).lookup "amp;with".toList = some "42".toList := by
  refine ⟨fun h => ?_, by decide, by decide⟩
  have hnone : (buildQueryArgMap (validateInput (requestOf setWith.args))).lookup "with".toList = none := by decide
  have hsome := (h setWith "with".toList).symm.trans hnone
  exact absurd hsome (by decide)

end RequestHandler

end Cpp

end Plethora
