/-
# Dynamic pages

`DynamicPageHandler`: a request's path is `/[type]/name/[param]`. The segment
before the first slash is taken for a type if it is the word of one and there
is another segment; what is after that slash is then split once more. The
handler of the name answers the request, in the type's format or the default
one, and without a handler the answer is null.

With the words of the types and the names of the handlers told apart, and
without slashes, the paths of the four forms are understood as they are meant,
and exactly the others are answered with null (`handleRequest_inverts`). The
names and the words of the source are such (`create_wellNamed`).

Key definitions: `DATA_TYPE`, `DataRequestHandler`, `DynamicPageHandler`,
`requestOf`, `handleRequest`, `Form`, `WellNamed`.
Key theorems: `requestOf_form`, `form_of_requestOf`, `handleRequest_inverts`.
-/
import Plethora.Common.Java
import Plethora.Lib.Charset
import Plethora.Lib.Pieces

namespace Plethora

inductive DATA_TYPE
  | JSON
  | TXT
  | CSV
  | XML
  | SITESCOPE
  deriving DecidableEq

namespace DATA_TYPE

def defaultDataType : DATA_TYPE := TXT

def name : DATA_TYPE → Text
  | JSON => "JSON".toList
  | TXT => "TXT".toList
  | CSV => "CSV".toList
  | XML => "XML".toList
  | SITESCOPE => "SITESCOPE".toList

/-- `type.name().toLowerCase()`. -/
def word (type : DATA_TYPE) : Text := type.name.map Char.toLower

end DATA_TYPE

/-- What a handler can throw. -/
inductive ResponseError
  | unsupportedEncoding
  | unchecked (e : JavaError)

/-- A handler, with its response for a parameter and a type. -/
structure DataRequestHandler where
  NAME : Text
  getResponse : Text → DATA_TYPE → Except ResponseError (List UInt8)

/-- `getResponse(param)`. -/
def DataRequestHandler.getDefaultResponse (handler : DataRequestHandler) (param : Text) :
    Except ResponseError (List UInt8) :=
  handler.getResponse param DATA_TYPE.defaultDataType

structure DynamicPageHandler where
  HANDLERS : List (Text × DataRequestHandler)
  DATA_TYPES : List (Text × DATA_TYPE)

namespace DynamicPageHandler

def addDynamicHandler (P : DynamicPageHandler) (handler : DataRequestHandler) : DynamicPageHandler :=
  { P with HANDLERS := put handler.NAME handler P.HANDLERS }

def initDataTypes (P : DynamicPageHandler) (knownDataTypes : List DATA_TYPE) : DynamicPageHandler :=
  { P with DATA_TYPES := knownDataTypes.foldl (fun types type => put type.word type types) P.DATA_TYPES }

/-- `path.split("/", 2)`: the first segment, and what is after the slash if
there is one. -/
def getSegmentedPath (path : Text) : Text × Option Text :=
  if '/' ∈ path then (path.takeWhile (· ≠ '/'), some ((path.dropWhile (· ≠ '/')).drop 1)) else (path, none)

section Handling

variable (P : DynamicPageHandler)

def isKnownDataType (type : Text) : Bool := (P.DATA_TYPES.lookup type).isSome

/-- A request's name, parameter and type. -/
structure Request where
  requestName : Text
  requestParam : Text
  requestType : Option Text

/-- The request of a path without its first character. -/
def requestOf (path : Text) : Request :=
  match getSegmentedPath path with
  | (first, some nextSubPath) =>
    if P.isKnownDataType first then
      let nextPathSegments := getSegmentedPath nextSubPath
      ⟨nextPathSegments.1, nextPathSegments.2.getD [], some first⟩
    else ⟨first, nextSubPath, none⟩
  | (name, none) => ⟨name, [], none⟩

def getResponse (request : Request) : Except ResponseError (Option (List UInt8)) :=
  match P.HANDLERS.lookup request.requestName with
  | none => .ok none
  | some handler =>
    match request.requestType.bind fun type => P.DATA_TYPES.lookup type with
    | none => (handler.getDefaultResponse request.requestParam).map some
    | some dataType => (handler.getResponse request.requestParam dataType).map some

/-- The handler's own answer to an encoding error. -/
def caught : Except ResponseError (Option (List UInt8)) → Except JavaError (Option (List UInt8))
  | .ok response => .ok response
  | .error .unsupportedEncoding => .ok (some (Utf8.encode "Encoding Error".toList))
  | .error (.unchecked e) => .error e

/-- `handleRequest(path)`; there is no substring after the first character of
an empty path. -/
def handleRequest : Text → Except JavaError (Option (List UInt8))
  | [] => .error .indexOutOfBounds
  | _ :: path => caught (P.getResponse (P.requestOf path))

/-- What comes of a handler that is run with a parameter and a type. -/
def run (handler : DataRequestHandler) (param : Text) (type : DATA_TYPE) : Except JavaError (Option (List UInt8)) :=
  caught ((handler.getResponse param type).map some)

/-- The documented forms of a path, with the handler, parameter and type that
they ask for. -/
inductive Form : Text → DataRequestHandler → Text → DATA_TYPE → Prop
  | typed {t n p : Text} {type : DATA_TYPE} {handler : DataRequestHandler} (known : P.DATA_TYPES.lookup t = some type)
      (named : P.HANDLERS.lookup n = some handler) : Form ('/' :: (t ++ '/' :: (n ++ '/' :: p))) handler p type
  | plain {n p : Text} {handler : DataRequestHandler} (named : P.HANDLERS.lookup n = some handler) :
      Form ('/' :: (n ++ '/' :: p)) handler p .defaultDataType
  | typedName {t n : Text} {type : DATA_TYPE} {handler : DataRequestHandler} (known : P.DATA_TYPES.lookup t = some type)
      (named : P.HANDLERS.lookup n = some handler) : Form ('/' :: (t ++ '/' :: n)) handler [] type
  | name {n : Text} {handler : DataRequestHandler} (named : P.HANDLERS.lookup n = some handler) :
      Form ('/' :: n) handler [] .defaultDataType

/-- The names of handlers and the words of types are told apart, and are single
segments. -/
structure WellNamed : Prop where
  apart : ∀ n, (P.HANDLERS.lookup n).isSome → P.DATA_TYPES.lookup n = none
  name : ∀ n, (P.HANDLERS.lookup n).isSome → '/' ∉ n
  word : ∀ t, (P.DATA_TYPES.lookup t).isSome → '/' ∉ t

end Handling

/-! ### The handlers of the source -/

/-- The handlers, by their responses for a parameter and a type. -/
structure Responses where
  metric : Text → DATA_TYPE → Except ResponseError (List UInt8)
  allMetrics : Text → DATA_TYPE → Except ResponseError (List UInt8)
  moduleMetrics : Text → DATA_TYPE → Except ResponseError (List UInt8)
  listMetrics : Text → DATA_TYPE → Except ResponseError (List UInt8)
  listModules : Text → DATA_TYPE → Except ResponseError (List UInt8)

def initHandlers (P : DynamicPageHandler) (R : Responses) : DynamicPageHandler :=
  ((((P.addDynamicHandler ⟨"get".toList, R.metric⟩).addDynamicHandler
    ⟨"getall".toList, R.allMetrics⟩).addDynamicHandler
    ⟨"getallfor".toList, R.moduleMetrics⟩).addDynamicHandler
    ⟨"listmetrics".toList, R.listMetrics⟩).addDynamicHandler
    ⟨"listmodules".toList, R.listModules⟩

/-- The constructor, with no types in the static map yet. -/
def create (R : Responses) (knownDataTypes : List DATA_TYPE) : DynamicPageHandler :=
  initDataTypes (initHandlers ⟨[], []⟩ R) knownDataTypes

theorem mem_names_initHandlers {P : DynamicPageHandler} {R : Responses} {n : Text} :
    n ∈ (P.initHandlers R).HANDLERS.map (·.1) ↔
      n ∈ ["listmodules".toList, "listmetrics".toList, "getallfor".toList, "getall".toList, "get".toList] ∨
        n ∈ P.HANDLERS.map (·.1) := by
  simp only [initHandlers, addDynamicHandler, mem_keys_put, List.mem_cons, List.not_mem_nil, or_false, or_assoc]

/-- The handler of metrics. -/
theorem lookup_get (R : Responses) (knownDataTypes : List DATA_TYPE) :
    (create R knownDataTypes).HANDLERS.lookup "get".toList = some ⟨"get".toList, R.metric⟩ := by
  have hother : ∀ name ∈ ["getall".toList, "getallfor".toList, "listmetrics".toList, "listmodules".toList],
      "get".toList ≠ name := by decide +kernel
  simp only [create, initDataTypes, initHandlers, addDynamicHandler, lookup_put]
  rw [if_neg (hother _ (by simp)), if_neg (hother _ (by simp)), if_neg (hother _ (by simp)),
    if_neg (hother _ (by simp)), if_pos trivial]

theorem mem_words_initDataTypes {t : Text} : ∀ (knownDataTypes : List DATA_TYPE) {P : DynamicPageHandler},
    t ∈ (P.initDataTypes knownDataTypes).DATA_TYPES.map (·.1) ↔
      (∃ type ∈ knownDataTypes, t = type.word) ∨ t ∈ P.DATA_TYPES.map (·.1)
  | [], P => by
    simp [initDataTypes]
  | type :: types, P => by
    have ih := @mem_words_initDataTypes t types { P with DATA_TYPES := put type.word type P.DATA_TYPES }
    rw [mem_keys_put] at ih
    rw [List.exists_mem_cons_iff, or_assoc, or_left_comm]
    exact ih

/-- The names and the words of the source are well named. -/
theorem create_wellNamed (R : Responses) (knownDataTypes : List DATA_TYPE) : (create R knownDataTypes).WellNamed := by
  have hname : ∀ n, ((create R knownDataTypes).HANDLERS.lookup n).isSome →
      n ∈ ["listmodules".toList, "listmetrics".toList, "getallfor".toList, "getall".toList, "get".toList] := by
    intro n h
    rcases mem_names_initHandlers.mp (mem_keys_iff.mpr h) with h | h
    · exact h
    · exact absurd h List.not_mem_nil
  have hword : ∀ t, ((create R knownDataTypes).DATA_TYPES.lookup t).isSome → ∃ type : DATA_TYPE, t = type.word := by
    intro t h
    rcases (mem_words_initDataTypes knownDataTypes).mp (mem_keys_iff.mpr h) with ⟨type, -, h⟩ | h
    · exact ⟨type, h⟩
    · exact absurd h List.not_mem_nil
  have hapart : ∀ type : DATA_TYPE, type.word ∉
      ["listmodules".toList, "listmetrics".toList, "getallfor".toList, "getall".toList, "get".toList] ∧
        '/' ∉ type.word := by
    intro type
    cases type <;> decide +kernel
  constructor
  · intro n h
    by_contra hn
    obtain ⟨type, rfl⟩ := hword n (Option.isSome_iff_ne_none.mpr hn)
    exact (hapart type).1 (hname _ h)
  · intro n h
    have hplain : ∀ n ∈ ["listmodules".toList, "listmetrics".toList, "getallfor".toList, "getall".toList,
        "get".toList], '/' ∉ n := by decide +kernel
    exact hplain n (hname n h)
  · intro t h
    obtain ⟨type, rfl⟩ := hword t h
    exact (hapart type).2

/-- Handlers that answer with their parameter. -/
def echoes : Responses :=
  ⟨answer, answer, answer, answer, answer⟩
where
  answer (param : Text) (_ : DATA_TYPE) : Except ResponseError (List UInt8) := .ok (Utf8.encode param)

/-! ### Segments -/

theorem getSegmentedPath_append {first : Text} (h : '/' ∉ first) (rest : Text) :
    getSegmentedPath (first ++ '/' :: rest) = (first, some rest) := by
  rw [getSegmentedPath, if_pos (List.mem_append_right _ List.mem_cons_self), Pieces.takeWhile_append_cons h,
    Pieces.dropWhile_append_cons h]
  rfl

theorem getSegmentedPath_of_not_mem {path : Text} (h : '/' ∉ path) : getSegmentedPath path = (path, none) :=
  if_neg h

/-- A path is one segment, or one and a rest. -/
theorem exists_segments (path : Text) :
    '/' ∉ path ∨ ∃ first rest, '/' ∉ first ∧ path = first ++ '/' :: rest := by
  by_cases h : '/' ∈ path
  · obtain ⟨first, rest, hpath, hfirst⟩ := List.eq_append_cons_of_mem h
    exact .inr ⟨first, rest, hfirst, hpath⟩
  · exact .inl h

section Requests

variable {P : DynamicPageHandler}

theorem requestOf_name {n : Text} (h : '/' ∉ n) : P.requestOf n = ⟨n, [], none⟩ := by
  rw [requestOf, getSegmentedPath_of_not_mem h]

theorem requestOf_plain {n : Text} (h : '/' ∉ n) (hn : P.DATA_TYPES.lookup n = none) (p : Text) :
    P.requestOf (n ++ '/' :: p) = ⟨n, p, none⟩ := by
  have hknown : P.isKnownDataType n = false := by rw [isKnownDataType, hn, Option.isSome_none]
  rw [requestOf, getSegmentedPath_append h]
  simp only [hknown, Bool.false_eq_true, if_false]

theorem requestOf_typed {t : Text} (h : '/' ∉ t) (ht : (P.DATA_TYPES.lookup t).isSome) (rest : Text) :
    P.requestOf (t ++ '/' :: rest) = ⟨(getSegmentedPath rest).1, (getSegmentedPath rest).2.getD [], some t⟩ := by
  have hknown : P.isKnownDataType t = true := ht
  rw [requestOf, getSegmentedPath_append h]
  simp only [hknown, if_true]

/-! ### Responses -/

/-- A handler that is run gives an answer, or lets an exception through. -/
theorem run_ne_none (handler : DataRequestHandler) (param : Text) (type : DATA_TYPE) :
    run handler param type ≠ .ok none := by
  unfold run
  cases handler.getResponse param type with
  | ok response => exact fun h => nomatch h
  | error e =>
    cases e with
    | unsupportedEncoding => exact fun h => nomatch h
    | unchecked e => exact fun h => nomatch h

/-- The type that a request's response has. -/
def typeOf (P : DynamicPageHandler) (request : Request) : DATA_TYPE :=
  (request.requestType.bind fun type => P.DATA_TYPES.lookup type).getD .defaultDataType

theorem caught_getResponse {request : Request} {handler : DataRequestHandler}
    (h : P.HANDLERS.lookup request.requestName = some handler) :
    caught (P.getResponse request) = run handler request.requestParam (P.typeOf request) := by
  unfold getResponse typeOf run
  rw [h]
  cases request.requestType.bind fun type => P.DATA_TYPES.lookup type with
  | none => rfl
  | some type => rfl

theorem caught_getResponse_eq_none_iff (request : Request) :
    caught (P.getResponse request) = .ok none ↔ P.HANDLERS.lookup request.requestName = none := by
  cases h : P.HANDLERS.lookup request.requestName with
  | none =>
    refine iff_of_true ?_ rfl
    rw [getResponse, h]
    rfl
  | some handler =>
    rw [caught_getResponse h]
    exact iff_of_false (run_ne_none _ _ _) (fun h => nomatch h)

/-! ### Paths of the documented forms -/

/-- A path of a form is understood as it is meant. -/
theorem requestOf_form (hP : P.WellNamed) {path : Text} {handler : DataRequestHandler} {param : Text}
    {type : DATA_TYPE} (h : P.Form ('/' :: path) handler param type) :
    P.HANDLERS.lookup (P.requestOf path).requestName = some handler ∧ (P.requestOf path).requestParam = param ∧
      P.typeOf (P.requestOf path) = type := by
  have hname : ∀ {n : Text} {handler : DataRequestHandler}, P.HANDLERS.lookup n = some handler →
      '/' ∉ n ∧ P.DATA_TYPES.lookup n = none := by
    intro n handler hn
    have hsome : (P.HANDLERS.lookup n).isSome := Option.isSome_of_eq_some hn
    exact ⟨hP.name n hsome, hP.apart n hsome⟩
  cases h with
  | @typed t n _ _ _ known named =>
    have ht : (P.DATA_TYPES.lookup t).isSome := Option.isSome_of_eq_some known
    rw [requestOf_typed (hP.word t ht) ht, getSegmentedPath_append (hname named).1]
    refine ⟨named, rfl, ?_⟩
    rw [typeOf, Option.bind_some, known, Option.getD_some]
  | plain named =>
    rw [requestOf_plain (hname named).1 (hname named).2]
    exact ⟨named, rfl, rfl⟩
  | @typedName t n _ _ known named =>
    have ht : (P.DATA_TYPES.lookup t).isSome := Option.isSome_of_eq_some known
    rw [requestOf_typed (hP.word t ht) ht, getSegmentedPath_of_not_mem (hname named).1]
    refine ⟨named, rfl, ?_⟩
    rw [typeOf, Option.bind_some, known, Option.getD_some]
  | name named =>
    rw [requestOf_name (hname named).1]
    exact ⟨named, rfl, rfl⟩

/-- A path that is understood as a request for some handler is of a form. -/
theorem form_of_requestOf {path : Text} {handler : DataRequestHandler}
    (h : P.HANDLERS.lookup (P.requestOf path).requestName = some handler) :
    P.Form ('/' :: path) handler (P.requestOf path).requestParam (P.typeOf (P.requestOf path)) := by
  rcases exists_segments path with hpath | ⟨first, rest, hfirst, rfl⟩
  · rw [requestOf_name hpath] at h ⊢
    exact .name h
  · cases hknown : P.DATA_TYPES.lookup first with
    | none =>
      rw [requestOf_plain hfirst hknown] at h ⊢
      exact .plain h
    | some type =>
      rw [requestOf_typed hfirst (Option.isSome_of_eq_some hknown)] at h ⊢
      have htype : P.typeOf ⟨(getSegmentedPath rest).1, (getSegmentedPath rest).2.getD [], some first⟩ = type := by
        rw [typeOf, Option.bind_some, hknown, Option.getD_some]
      rw [htype]
      rcases exists_segments rest with hrest | ⟨n, p, hn, rfl⟩
      · rw [getSegmentedPath_of_not_mem hrest] at h ⊢
        exact .typedName hknown h
      · rw [getSegmentedPath_append hn] at h ⊢
        exact .typed hknown h

theorem handleRequest_of_form (hP : P.WellNamed) {path : Text} {handler : DataRequestHandler} {param : Text}
    {type : DATA_TYPE} (h : P.Form path handler param type) : P.handleRequest path = run handler param type := by
  obtain ⟨rest, rfl⟩ : ∃ rest, path = '/' :: rest := by cases h <;> exact ⟨_, rfl⟩
  obtain ⟨hhandler, hparam, htype⟩ := requestOf_form hP h
  rw [handleRequest, caught_getResponse hhandler, hparam, htype]

/-- **A request is understood as it is meant.** A path of a documented form runs
its handler with its parameter and type, and a path from a slash on is answered
with null exactly if it has none of the forms. -/
theorem handleRequest_inverts (hP : P.WellNamed) :
    (∀ path handler param type, P.Form path handler param type → P.handleRequest path = run handler param type) ∧
    ∀ path, P.handleRequest ('/' :: path) = .ok none ↔ ¬ ∃ handler param type, P.Form ('/' :: path) handler param type := by
  refine ⟨fun _ _ _ _ => handleRequest_of_form hP, fun path => ?_⟩
  rw [handleRequest, caught_getResponse_eq_none_iff]
  constructor
  · rintro hnone ⟨handler, param, type, h⟩
    rw [(requestOf_form hP h).1] at hnone
    cases hnone
  · intro h
    rw [Option.eq_none_iff_forall_ne_some]
    intro handler hhandler
    exact h ⟨handler, _, _, form_of_requestOf hhandler⟩

theorem handleRequest_inverts_json :
    (∀ path handler param type, (create echoes [.JSON]).Form path handler param type →
      (create echoes [.JSON]).handleRequest path = run handler param type) ∧
    ∀ path, (create echoes [.JSON]).handleRequest ('/' :: path) = .ok none ↔
      ¬ ∃ handler param type, (create echoes [.JSON]).Form ('/' :: path) handler param type :=
  handleRequest_inverts (create_wellNamed echoes [.JSON])

end Requests

end DynamicPageHandler

end Plethora
