/-
# From a URL to the path of a request

A client opens a URL and a server reads the path out of the request line.
`java.net.URL` drops what does not print at both ends of the text, takes what
follows a `#` for the fragment and the rest for scheme, authority, path and
query; path and query are written into the request line as they are.
`BaseHTTPServer` splits the line at white space, and takes the second word of
three for the path; of two if the first is `GET`.

So of a query the server reads what is before its first `#` and before its
first white space, less what the URL drops at its end (`carried`): all of it
exactly if it is `Carried` and `Ended` (`carried_eq_iff`); and nothing if the
path itself does not come through (`query_received`).

Key definitions: `Transport`, `Transport.getFile`, `Transport.parseRequest`,
`Transport.received`, `Carried`, `Ended`.
Key theorems: `query_received`, `received_of_carried`, `carried_eq_iff`.
-/
import Plethora.Lib.Pieces
import Mathlib.Data.Char
import Mathlib.Data.List.DropRight
import Mathlib.Data.List.TakeWhile

namespace HttpRequest

/-- What client and server make of a request besides. -/
structure Transport where
  /-- What is left of a path, after its first slash, without the segments `.`
  and `..`. -/
  normalized : List Char → List Char
  normalized_sublist : ∀ path, (normalized path).Sublist path
  /-- The protocol versions that the server takes. -/
  takesVersion : List Char → Bool
  takes : takesVersion "HTTP/1.1".toList = true

/-- What `split` takes for white space. -/
def isspace (c : Char) : Bool := c ∈ [' ', '\t', '\n', '\r', Char.ofNat 11, Char.ofNat 12]

/-- `s.split()`. -/
def words (s : List Char) : List (List Char) := (s.splitOnP isspace).filter (· ≠ [])

/-- What `new URL(spec)` drops at both ends. -/
def unprinted (c : Char) : Bool := c ≤ ' '

/-- The text of a URL before its fragment. -/
def beforeRef (spec : List Char) : List Char :=
  ((spec.dropWhile unprinted).rdropWhile unprinted).takeWhile (· ≠ '#')

namespace Transport

variable (T : Transport)

/-- `new URL(spec).getFile()`, of a URL with an authority: path and query. -/
def getFile (spec : List Char) : List Char :=
  let hierarchy := (beforeRef spec).takeWhile (· ≠ '?')
  let path := ((hierarchy.dropWhile (· ≠ ':')).drop 3).dropWhile (· ≠ '/')
  path.take 1 ++ T.normalized (path.drop 1) ++ (beforeRef spec).dropWhile (· ≠ '?')

/-- The line that the client writes. -/
def requestLine (file : List Char) : List Char := "GET ".toList ++ file ++ " HTTP/1.1".toList

/-- `parse_request`, of all that arrives: the path, `none` if there is an error. -/
def parseRequest (request : List Char) : Option (List Char) :=
  match words (request.takeWhile (· ≠ '\n')) with
  | [_, path, version] => if T.takesVersion version then some path else none
  | [command, path] => if command = "GET".toList then some path else none
  | _ => none

/-- The path that the server reads when the client opens the URL. -/
def received (spec : List Char) : Option (List Char) := T.parseRequest (requestLine (T.getFile spec))

end Transport

/-! ### The words of the line -/

theorem words_append_cons (s t : List Char) {c : Char} (h : isspace c = true) :
    words (s ++ c :: t) = words s ++ words t := by
  rw [words, List.splitOnP_append_cons _ _ h, List.filter_append, words, words]

theorem words_singleton {s : List Char} (h : ∀ c ∈ s, isspace c = false) (hne : s ≠ []) : words s = [s] := by
  rw [words, List.splitOnP_eq_singleton h]
  simp [hne]

/-- A text up to its first white space, and the rest of it. -/
theorem exists_first_word (s : List Char) : (∀ c ∈ s, isspace c = false) ∨
    ∃ c t, s = s.takeWhile (fun c => !isspace c) ++ c :: t ∧ isspace c = true := by
  have hsplit := List.takeWhile_append_dropWhile (p := fun c => !isspace c) (l := s)
  cases hd : s.dropWhile (fun c => !isspace c) with
  | nil =>
    left
    simpa using List.dropWhile_eq_nil_iff.mp hd
  | cons c t =>
    right
    have hc := List.head?_dropWhile_not (fun c => !isspace c) s
    rw [hd] at hsplit hc
    exact ⟨c, t, hsplit.symm, by simpa using hc⟩

theorem isspace_takeWhile (s : List Char) : ∀ c ∈ s.takeWhile (fun c => !isspace c), isspace c = false :=
  fun c hc => by simpa using List.mem_takeWhile_imp hc

theorem words_line (rest : List Char) : words ("GET ".toList ++ rest) = "GET".toList :: words rest := by
  have hget : words "GET".toList = ["GET".toList] := by decide
  have hsplit : "GET ".toList ++ rest = "GET".toList ++ ' ' :: rest := rfl
  rw [hsplit, words_append_cons _ _ (by decide), hget]
  rfl

namespace Transport

variable (T : Transport) {file path : List Char}

theorem parseRequest_line {rest : List Char} {w : List Char} {v : List (List Char)}
    (h : words (rest.takeWhile (· ≠ '\n')) = w :: v) (hp : T.parseRequest ("GET ".toList ++ rest) = some path) :
    path = w := by
  have hline : ("GET ".toList ++ rest).takeWhile (· ≠ '\n') = "GET ".toList ++ rest.takeWhile (· ≠ '\n') :=
    List.takeWhile_append_of_pos (by decide)
  rw [parseRequest, hline, words_line, h] at hp
  split at hp
  · rename_i he
    cases he
    split at hp
    · exact (Option.some.inj hp).symm
    · cases hp
  · rename_i he
    cases he
    split at hp
    · exact (Option.some.inj hp).symm
    · cases hp
  · cases hp

/-- The path read is what is written, up to the first white space. -/
theorem eq_of_parseRequest (hfile : ∃ c t, file = c :: t ∧ isspace c = false)
    (h : T.parseRequest (requestLine file) = some path) : path = file.takeWhile fun c => !isspace c := by
  obtain ⟨c, t, rfl, hc⟩ := hfile
  have hne : (c :: t).takeWhile (fun c => !isspace c) ≠ [] := by simp [hc]
  have hplain := isspace_takeWhile (c :: t)
  generalize hw : (c :: t).takeWhile (fun c => !isspace c) = w at hne hplain
  have hline : ∀ c ∈ w, decide (c ≠ '\n') = true := fun c hc => by
    have h := hplain c hc
    by_contra hn
    obtain rfl : c = '\n' := by simpa using hn
    exact absurd h (by decide)
  rw [requestLine, List.append_assoc] at h
  rcases exists_first_word (c :: t) with hall | ⟨d, u, he, hd⟩
  · have heq : c :: t = w := by
      rw [← hw]
      exact (List.takeWhile_eq_self_iff.mpr fun c hc => by simpa using hall c hc).symm
    refine T.parseRequest_line (v := ["HTTP/1.1".toList]) ?_ h
    have hversion : words "HTTP/1.1".toList = ["HTTP/1.1".toList] := by decide
    have hrest : (" HTTP/1.1".toList).takeWhile (· ≠ '\n') = ' ' :: "HTTP/1.1".toList := by decide
    rw [heq, List.takeWhile_append_of_pos hline, hrest, words_append_cons _ _ (by decide),
      words_singleton hplain hne, hversion]
    rfl
  · rw [hw] at he
    have hsplit : (c :: t) ++ " HTTP/1.1".toList = w ++ d :: (u ++ " HTTP/1.1".toList) := by rw [he]; simp
    rw [hsplit] at h
    by_cases hn : d = '\n'
    · subst hn
      refine T.parseRequest_line (v := []) ?_ h
      have hend : ('\n' :: (u ++ " HTTP/1.1".toList)).takeWhile (· ≠ '\n') = [] := rfl
      rw [List.takeWhile_append_of_pos hline, hend, List.append_nil, words_singleton hplain hne]
    · refine T.parseRequest_line (v := words ((u ++ " HTTP/1.1".toList).takeWhile (· ≠ '\n'))) ?_ h
      rw [List.takeWhile_append_of_pos hline, List.takeWhile_cons_of_pos (by simpa using hn),
        words_append_cons _ _ hd, words_singleton hplain hne]
      rfl

/-- Without white space in it, it is read as it is written. -/
theorem parseRequest_requestLine (hne : file ≠ []) (h : ∀ c ∈ file, isspace c = false) :
    T.parseRequest (requestLine file) = some file := by
  have hline : (requestLine file).takeWhile (· ≠ '\n') = "GET ".toList ++ (file ++ ' ' :: "HTTP/1.1".toList) := by
    have hall : ∀ c ∈ requestLine file, decide (c ≠ '\n') = true := by
      intro c hc
      by_contra hn
      obtain rfl : c = '\n' := by simpa using hn
      simp only [requestLine, List.mem_append] at hc
      rcases hc with (hc | hc) | hc
      · exact absurd hc (by decide)
      · exact absurd (h _ hc) (by decide)
      · exact absurd hc (by decide)
    rw [List.takeWhile_eq_self_iff.mpr hall, requestLine, List.append_assoc]
    rfl
  have hversion : words "HTTP/1.1".toList = ["HTTP/1.1".toList] := by decide
  rw [parseRequest, hline, words_line, words_append_cons _ _ (by decide), words_singleton h hne, hversion]
  exact if_pos T.takes

end Transport

/-! ### What comes of a query -/

/-- What the server reads of the query that a URL ends with. -/
def carried (query : List Char) : List Char :=
  ((query.rdropWhile unprinted).takeWhile (· ≠ '#')).takeWhile fun c => !isspace c

/-- A text that neither the fragment begins in nor a word ends. -/
structure Carried (s : List Char) : Prop where
  fragment : '#' ∉ s
  space : ∀ c ∈ s, isspace c = false

/-- The URL drops nothing at the end. -/
def Ended (s : List Char) : Prop := ∀ c ∈ s.getLast?, unprinted c = false

instance (s : List Char) : Decidable (Ended s) :=
  decidable_of_iff ((s.getLast?.all fun c => !unprinted c) = true) <| by simp [Ended, Option.all_eq_true]

theorem carried_append {s t : List Char} : Carried (s ++ t) ↔ Carried s ∧ Carried t := by
  constructor
  · rintro ⟨hf, hs⟩
    exact ⟨⟨fun h => hf (List.mem_append_left t h), fun c hc => hs c (List.mem_append_left t hc)⟩,
      ⟨fun h => hf (List.mem_append_right s h), fun c hc => hs c (List.mem_append_right s hc)⟩⟩
  · rintro ⟨hs, ht⟩
    refine ⟨by simp [hs.fragment, ht.fragment], fun c hc => ?_⟩
    exact (List.mem_append.mp hc).elim (hs.space c) (ht.space c)

theorem ended_append {s t : List Char} (ht : t ≠ []) : Ended (s ++ t) ↔ Ended t := by
  rw [Ended, List.getLast?_append_of_ne_nil _ ht, Ended]

theorem carried_isPrefix (query : List Char) : carried query <+: query :=
  ((List.takeWhile_prefix _).trans (List.takeWhile_prefix _)).trans (List.rdropWhile_prefix _ _)

theorem carried_eq_iff {query : List Char} : carried query = query ↔ Carried query ∧ Ended query := by
  constructor
  · intro h
    have hlen := congrArg List.length h
    have hspace := (List.takeWhile_prefix (fun c => !isspace c)
      (l := (query.rdropWhile unprinted).takeWhile (· ≠ '#'))).length_le
    have href := (List.takeWhile_prefix (· ≠ '#') (l := query.rdropWhile unprinted)).length_le
    have hend := (List.rdropWhile_prefix unprinted query).length_le
    unfold carried at hlen
    have hend : query.rdropWhile unprinted = query := (List.rdropWhile_prefix _ _).eq_of_length (by omega)
    rw [hend] at href hlen hspace
    have href : query.takeWhile (· ≠ '#') = query := (List.takeWhile_prefix _).eq_of_length (by omega)
    rw [href] at hlen hspace
    have hspace : query.takeWhile (fun c => !isspace c) = query := (List.takeWhile_prefix _).eq_of_length (by omega)
    refine ⟨⟨fun hm => ?_, fun c hc => ?_⟩, fun c hc => ?_⟩
    · simpa using List.takeWhile_eq_self_iff.mp href '#' hm
    · simpa using List.takeWhile_eq_self_iff.mp hspace c hc
    · obtain ⟨hne, rfl⟩ := List.mem_getLast?_eq_getLast hc
      simpa using List.rdropWhile_eq_self_iff.mp hend hne
  · rintro ⟨h, hend⟩
    have h1 : query.rdropWhile unprinted = query := by
      refine (List.rdropWhile_eq_self_iff ..).mpr fun hne => ?_
      simpa using hend _ (List.getLast?_eq_getLast_of_ne_nil hne)
    have h2 : query.takeWhile (· ≠ '#') = query := by
      refine List.takeWhile_eq_self_iff.mpr fun c hc => ?_
      have hne : c ≠ '#' := fun he => h.fragment (he ▸ hc)
      simpa using hne
    rw [carried, h1, h2]
    exact List.takeWhile_eq_self_iff.mpr fun c hc => by simpa using h.space c hc

namespace Transport

variable (T : Transport)

/-- What is written of a path, which begins with a slash. -/
def sentPath (path : List Char) : List Char := path.take 1 ++ T.normalized (path.drop 1)

/-- The path comes through in front of the query. -/
structure Passes (path : List Char) : Prop where
  fragment : '#' ∉ path
  space : ∀ c ∈ T.sentPath path, isspace c = false

theorem mem_of_mem_sentPath {path : List Char} {c : Char} (h : c ∈ T.sentPath path) : c ∈ path := by
  rcases List.mem_append.mp h with h | h
  · exact List.mem_of_mem_take h
  · exact List.mem_of_mem_drop ((T.normalized_sublist _).subset h)

end Transport

theorem rdropWhile_append_cons {p : Char → Bool} {c : Char} (h : p c = false) (s t : List Char) :
    (s ++ c :: t).rdropWhile p = s ++ c :: t.rdropWhile p := by
  induction t using List.reverseRecOn with
  | nil =>
    rw [List.rdropWhile_concat_neg _ _ _ (by simp [h])]
    rfl
  | append_singleton t d ih =>
    have hassoc : s ++ c :: (t ++ [d]) = (s ++ c :: t) ++ [d] := by simp
    rw [hassoc]
    by_cases hd : p d = true
    · rw [List.rdropWhile_concat_pos _ _ _ hd, List.rdropWhile_concat_pos _ _ _ hd, ih]
    · rw [List.rdropWhile_concat_neg _ _ _ hd, List.rdropWhile_concat_neg _ _ _ hd, hassoc]

section Url

variable {T : Transport} {authority path query : List Char}

/-- A URL of a page with a query. -/
def url (authority path query : List Char) : List Char := "https://".toList ++ authority ++ path ++ '?' :: query

variable (ha : ∀ c ∈ authority, c ∉ "/?#".toList)
include ha

theorem not_mem_front {c : Char} (hc : c ∈ "?#".toList) : c ∉ "https://".toList ++ authority := by
  intro h
  rcases List.mem_append.mp h with h | h
  · have hsigns : ∀ d ∈ "?#".toList, d ∉ "https://".toList := by decide
    exact hsigns c hc h
  · exact ha c h (List.mem_cons_of_mem '/' hc)

theorem getFile_of_beforeRef {spec tail : List Char} (hq : '?' ∉ path) (hpath : path = [] ∨ ∃ rest, path = '/' :: rest)
    (ht : tail = [] ∨ ∃ q, tail = '?' :: q) (h : beforeRef spec = "https://".toList ++ authority ++ path ++ tail) :
    T.getFile spec = T.sentPath path ++ tail := by
  have hfront : '?' ∉ "https://".toList ++ authority ++ path := by
    rw [List.mem_append, not_or]
    exact ⟨not_mem_front ha (by decide), hq⟩
  have hcut : (beforeRef spec).takeWhile (· ≠ '?') = "https://".toList ++ authority ++ path ∧
      (beforeRef spec).dropWhile (· ≠ '?') = tail := by
    rw [h]
    rcases ht with rfl | ⟨q, rfl⟩
    · have hall : ∀ c ∈ "https://".toList ++ authority ++ path, decide (c ≠ '?') = true := fun c hc => by
        have hne : c ≠ '?' := fun he => hfront (he ▸ hc)
        simpa using hne
      rw [List.append_nil]
      exact ⟨List.takeWhile_eq_self_iff.mpr hall, List.dropWhile_eq_nil_iff.mpr hall⟩
    · exact ⟨Pieces.takeWhile_append_cons hfront q, Pieces.dropWhile_append_cons hfront q⟩
  have hscheme : (("https://".toList ++ authority ++ path).dropWhile (· ≠ ':')).drop 3 = authority ++ path := by
    have hsplit : "https://".toList ++ authority ++ path = "https".toList ++ ':' :: ("//".toList ++ (authority ++ path)) := by
      rw [List.append_assoc]
      rfl
    rw [hsplit, Pieces.dropWhile_append_cons (by decide)]
    rfl
  have hslash : '/' ∉ authority := fun hm => ha '/' hm (by decide)
  have hroot : (authority ++ path).dropWhile (· ≠ '/') = path := by
    rcases hpath with rfl | ⟨rest, rfl⟩
    · rw [List.append_nil]
      refine List.dropWhile_eq_nil_iff.mpr fun c hc => ?_
      have hne : c ≠ '/' := fun he => hslash (he ▸ hc)
      simpa using hne
    · exact Pieces.dropWhile_append_cons hslash rest
  unfold Transport.getFile
  dsimp only
  rw [hcut.1, hcut.2, hscheme, hroot]
  rfl

omit ha in
/-- The text of the URL, less what is dropped at its end, up to the fragment. -/
theorem beforeRef_url (authority path query : List Char) : beforeRef (url authority path query) =
    ("https://".toList ++ authority ++ path ++ '?' :: query.rdropWhile unprinted).takeWhile (· ≠ '#') := by
  have hmark : unprinted '?' = false := by decide
  obtain ⟨c, t, he, hc⟩ : ∃ c t, "https://".toList = c :: t ∧ unprinted c = false :=
    ⟨'h', "ttps://".toList, by decide, by decide⟩
  unfold beforeRef url
  rw [he, List.cons_append, List.cons_append, List.cons_append,
    List.dropWhile_cons_of_neg (by simp [hc]), ← List.cons_append, rdropWhile_append_cons hmark]

variable (hq : '?' ∉ path) (hpath : path = [] ∨ ∃ rest, path = '/' :: rest)
include hq hpath

theorem getFile_url (hf : '#' ∉ path) : T.getFile (url authority path query) =
    T.sentPath path ++ '?' :: (query.rdropWhile unprinted).takeWhile (· ≠ '#') := by
  refine getFile_of_beforeRef ha hq hpath (Or.inr ⟨_, rfl⟩) ?_
  have hall : ∀ c ∈ "https://".toList ++ authority ++ path, decide (c ≠ '#') = true := fun c hc => by
    have hne : c ≠ '#' := by
      rintro rfl
      exact (List.mem_append.mp hc).elim (not_mem_front ha (by decide)) hf
    simpa using hne
  rw [beforeRef_url, List.takeWhile_append_of_pos hall, List.takeWhile_cons_of_pos (by decide)]

/-- A fragment that begins in the path has the query in it. -/
theorem getFile_url_of_mem (hf : '#' ∈ path) : ∃ t, T.getFile (url authority path query) = '/' :: t ∧ '?' ∉ t := by
  obtain ⟨l, r, rfl, hl⟩ := List.eq_append_cons_of_mem hf
  obtain ⟨l, rfl⟩ : ∃ l', l = '/' :: l' := by
    rcases hpath with h | ⟨rest, h⟩
    · simp at h
    · cases l with
      | nil => simp at h
      | cons c l => exact ⟨l, by rw [(List.cons.inj h).1]⟩
  have hq' : '?' ∉ '/' :: l := fun hm => hq (List.mem_append_left _ hm)
  have hfile : T.getFile (url authority ('/' :: l ++ '#' :: r) query) = T.sentPath ('/' :: l) ++ [] := by
    refine getFile_of_beforeRef ha hq' (Or.inr ⟨l, rfl⟩) (Or.inl rfl) ?_
    have hsplit : "https://".toList ++ authority ++ ('/' :: l ++ '#' :: r) ++ '?' :: query.rdropWhile unprinted =
        ("https://".toList ++ authority ++ '/' :: l) ++ '#' :: (r ++ '?' :: query.rdropWhile unprinted) := by
      simp only [List.append_assoc, List.cons_append]
    have hfront : '#' ∉ "https://".toList ++ authority ++ '/' :: l := by
      rw [List.mem_append, not_or]
      exact ⟨not_mem_front ha (by decide), hl⟩
    rw [beforeRef_url, hsplit, Pieces.takeWhile_append_cons hfront, List.append_nil]
  refine ⟨T.normalized l, ?_, fun hm => hq' (List.mem_cons_of_mem _ ((T.normalized_sublist l).subset hm))⟩
  rw [hfile, List.append_nil]
  rfl

/-- **What the server reads of the query**: what of it is carried, if the
path comes through, and nothing if not. -/
theorem query_received {p : List Char} (h : T.received (url authority path query) = some p) :
    p.dropWhile (· ≠ '?') = [] ∨ T.Passes path ∧ p.dropWhile (· ≠ '?') = '?' :: carried query := by
  have hnil : ∀ {t : List Char}, '?' ∉ t → t.dropWhile (· ≠ '?') = [] := fun {t} ht =>
    List.dropWhile_eq_nil_iff.mpr fun c hc => by
      have hne : c ≠ '?' := fun he => ht (he ▸ hc)
      simpa using hne
  by_cases hf : '#' ∈ path
  · obtain ⟨t, hfile, ht⟩ : ∃ t, T.getFile (url authority path query) = '/' :: t ∧ '?' ∉ t :=
      getFile_url_of_mem ha hq hpath hf
    have hp := T.eq_of_parseRequest ⟨'/', t, hfile, by decide⟩ h
    refine Or.inl (hnil fun hm => ?_)
    rw [hp] at hm
    have hm := (List.takeWhile_prefix _).subset hm
    rw [hfile] at hm
    rcases List.mem_cons.mp hm with hm | hm
    · cases hm
    · exact ht hm
  · have hfile : T.getFile (url authority path query) =
        T.sentPath path ++ '?' :: (query.rdropWhile unprinted).takeWhile (· ≠ '#') := getFile_url ha hq hpath hf
    have hsent : '?' ∉ T.sentPath path := fun hm => hq (T.mem_of_mem_sentPath hm)
    have hhead : ∃ c t, T.getFile (url authority path query) = c :: t ∧ isspace c = false := by
      rw [hfile]
      rcases hpath with rfl | ⟨rest, rfl⟩
      · have hempty : T.normalized [] = [] := List.sublist_nil.mp (T.normalized_sublist [])
        refine ⟨'?', (query.rdropWhile unprinted).takeWhile (· ≠ '#'), ?_, by decide⟩
        rw [Transport.sentPath, List.drop_nil, hempty]
        rfl
      · exact ⟨'/', _, rfl, by decide⟩
    have hp := T.eq_of_parseRequest hhead h
    rw [hfile] at hp
    rcases exists_first_word (T.sentPath path) with hall | ⟨c, t, he, hc⟩
    · right
      refine ⟨⟨hf, hall⟩, ?_⟩
      rw [List.takeWhile_append_of_pos fun c hc => by simpa using hall c hc,
        List.takeWhile_cons_of_pos (by decide)] at hp
      rw [hp, Pieces.dropWhile_append_cons hsent]
      rfl
    · left
      refine hnil fun hm => hsent ?_
      have hcut : ∀ c ∈ (T.sentPath path).takeWhile (fun c => !isspace c), (!isspace c) = true :=
        fun c hc => List.mem_takeWhile_imp (p := fun c => !isspace c) hc
      rw [he, List.append_assoc, List.takeWhile_append_of_pos hcut, List.cons_append,
        List.takeWhile_cons_of_neg (by simp [hc]), List.append_nil] at hp
      rw [hp] at hm
      exact (List.takeWhile_prefix _).subset hm

theorem received_of_carried (hp : T.Passes path) (hquery : Carried query) (hend : Ended query) :
    ∃ p, T.received (url authority path query) = some p ∧ p.dropWhile (· ≠ '?') = '?' :: query := by
  have hall := carried_eq_iff.mpr ⟨hquery, hend⟩
  have href : (query.rdropWhile unprinted).takeWhile (· ≠ '#') = query := by
    refine ((List.takeWhile_prefix _).trans (List.rdropWhile_prefix _ _)).eq_of_length_le ?_
    have hle := (List.takeWhile_prefix (fun c => !isspace c)
      (l := (query.rdropWhile unprinted).takeWhile (· ≠ '#'))).length_le
    rw [← congrArg List.length hall]
    exact hle
  have hfile : T.getFile (url authority path query) =
      T.sentPath path ++ '?' :: (query.rdropWhile unprinted).takeWhile (· ≠ '#') := getFile_url ha hq hpath hp.fragment
  rw [href] at hfile
  have hsent : '?' ∉ T.sentPath path := fun hm => hq (T.mem_of_mem_sentPath hm)
  refine ⟨T.sentPath path ++ '?' :: query, ?_, Pieces.dropWhile_append_cons hsent query⟩
  rw [Transport.received, hfile]
  refine T.parseRequest_requestLine (by simp) fun c hc => ?_
  rcases List.mem_append.mp hc with hc | hc
  · exact hp.space c hc
  · rcases List.mem_cons.mp hc with rfl | hc
    · decide
    · exact hquery.space c hc

end Url

end HttpRequest
