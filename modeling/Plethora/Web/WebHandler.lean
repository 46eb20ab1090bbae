/-
# The web handler

`WebHandler` puts the dynamic pages before the static ones: a request's path,
with blanks for angle brackets, is given to the dynamic handler, and to the
static one if that answers with null. The response starts as the word `ERROR`,
which is not null: a web handler without a dynamic one never asks the static
one. A null response cannot be sent.

Once the controller has put the web root on the white list, what the server
answers is told from the files: a handler's response for the paths of the
documented forms; for others the contents of a file in the web root, or in a
sibling whose name begins with the web root's, or the error page; and nothing at
all for a path that leads elsewhere (`handle_ok_iff`). The web root is taken to
resolve as it did when the server started.

Key definitions: `WebHandler`, `WebHandler.getResponse`, `WebHandler.handle`, `WebHandler.Answers`.
Key theorems: `handleRequest_ok_iff`, `WebHandler.handle_ok_iff`.
-/
import Plethora.Web.DynamicPage
import Plethora.Web.StaticPage

namespace Plethora

structure WebHandler where
  dynamicPageHandler : Option DynamicPageHandler
  staticPageHandler : Option StaticPageHandler

namespace WebHandler

def ERROR_MSG : Text := "ERROR".toList

def sanitizePath (path : Text) : Text := path.map fun c => if c = '<' ∨ c = '>' then ' ' else c

/-- A handler's request, of a path that can be null. -/
def request {α : Type} (handleRequest : Text → Except JavaError α) : Option Text → Except JavaError α
  | none => .error .nullPointer
  | some path => handleRequest path

section Handling

variable (W : WebHandler) (fs : FileSystem)

def getResponse (path : Option Text) : Except JavaError (Option (List UInt8)) := do
  let sanitizedPath := path.map sanitizePath
  let response ←
    match W.dynamicPageHandler with
    | some dynamic => request dynamic.handleRequest sanitizedPath
    | none => pure (some (Utf8.encode ERROR_MSG))
  match response, W.staticPageHandler with
  | none, some static => return (← request (static.handleRequest fs) sanitizedPath).bytes
  | response, _ => return response

/-- What is sent: the length of the response is taken first. -/
def handle (path : Option Text) : Except JavaError (List UInt8) := do
  match ← W.getResponse fs path with
  | some response => return response
  | none => .error .nullPointer

end Handling

/-- The handler of `startWebService`. -/
def ofBoth (D : DynamicPageHandler) (S : StaticPageHandler) : WebHandler := ⟨some D, some S⟩

/-- `new WebHandler(dynamicPageHandler)`. -/
def ofDynamic (D : DynamicPageHandler) : WebHandler := ⟨some D, none⟩

/-- `new WebHandler(staticPageHandler)`. -/
def ofStatic (S : StaticPageHandler) : WebHandler := ⟨none, some S⟩

end WebHandler

/-! ### The static pages -/

namespace StaticPageHandler

variable {fs : FileSystem} {webRoot fileName : Text} {root : CanonicalPath}

/-- A name leads into the web root, or into a sibling with a longer name. -/
def Inside (fs : FileSystem) (root : CanonicalPath) (fileName : Text) : Prop :=
  ∃ p, fs.getCanonicalPath fileName = some p ∧ (root.names <+: p.names ∨ root.Beside p)

/-- The file of this name holds these bytes, for whoever may read it. -/
def Holds (fs : FileSystem) (fileName : Text) (data : List UInt8) : Prop :=
  ∃ f, fs.file fileName = some f ∧ f.canRead = true ∧ SecureFileReader.fileRead f = .ok data

/-- The file of this name is not there, or it cannot be read. -/
def Unread (fs : FileSystem) (fileName : Text) : Prop :=
  ∀ f, fs.file fileName = some f → f.canRead = true → SecureFileReader.fileRead f = .error .io

/-- What a path is answered with: the file it names, in the web root or such a
sibling; or the error page, also if its name does not resolve. -/
inductive Shows (fs : FileSystem) (root : CanonicalPath) (fileName : Text) (ERROR : List UInt8) : List UInt8 → Prop
  | file {data : List UInt8} (inside : Inside fs root fileName) (holds : Holds fs fileName data) :
      Shows fs root fileName ERROR data
  | unread (inside : Inside fs root fileName) (unread : Unread fs fileName) : Shows fs root fileName ERROR ERROR
  | unresolved (nowhere : fs.getCanonicalPath fileName = none) : Shows fs root fileName ERROR ERROR

/-- A path that resolves is permitted if it is inside: the web root is the one
entry of the list. -/
theorem isReadPermittedPath_iff {P : FileAccessPermission} (hP : P.readPaths = [root.getPath]) (p : CanonicalPath) :
    P.isReadPermittedPath p.getPath = true ↔ root.names <+: p.names ∨ root.Beside p := by
  rw [← startsWith_iff]
  simp only [FileAccessPermission.isReadPermittedPath, FileAccessPermission.checkPath, hP, List.any_cons,
    List.any_nil, Bool.or_false, Bool.or_eq_true, decide_eq_true_eq]
  refine ⟨fun h => ?_, Or.inr⟩
  rcases h with h | h
  · simp [h]
  · exact h

section Reading

variable {P : FileAccessPermission}

theorem readIn_unresolved (h : fs.getCanonicalPath fileName = none) :
    SecureFileReader.readIn fs P fileName webRoot = .error .io := by
  simp only [SecureFileReader.readIn, SecureFileReader.getTrustedValidReadableFileIn,
    SecureFileReader.getTrustedValidReadableFile, FileAccessPermission.canonicalPath, h]
  rfl

variable (hP : P.readPaths = [root.getPath])

include hP

theorem readIn_outside {p : CanonicalPath} (h : fs.getCanonicalPath fileName = some p)
    (hout : ¬ (root.names <+: p.names ∨ root.Beside p)) :
    SecureFileReader.readIn fs P fileName webRoot = .error (.unchecked .security) := by
  have hno : ¬ P.isReadPermittedPath p.getPath = true := fun hp => hout ((isReadPermittedPath_iff hP p).mp hp)
  have hpath := canonicalPath_ok.mpr ⟨p, h, rfl⟩
  simp only [SecureFileReader.readIn, SecureFileReader.getTrustedValidReadableFileIn,
    SecureFileReader.getTrustedValidReadableFile, hpath]
  simp only [bind, Except.bind, if_neg hno]

variable (hroot : fs.getCanonicalPath webRoot = some root)

include hroot

/-- Past the checks, a file is read if it is there and may be. -/
theorem readIn_inside (h : Inside fs root fileName) : SecureFileReader.readIn fs P fileName webRoot =
    orIOException ((fs.file fileName).filter FileNode.canRead) >>= SecureFileReader.fileRead := by
  obtain ⟨p, hp, hin⟩ := h
  have hpath := canonicalPath_ok.mpr ⟨p, hp, rfl⟩
  have hyes := (isReadPermittedPath_iff hP p).mpr hin
  have hbelow := (startsWith_iff root p).mpr hin
  simp only [SecureFileReader.readIn, SecureFileReader.getTrustedValidReadableFileIn,
    SecureFileReader.getTrustedValidReadableFile, hpath, verifyParent_ok hroot hp]
  simp only [bind, Except.bind, if_pos hyes, hbelow, if_true]
  cases fs.file fileName with
  | none => rfl
  | some f =>
    cases hr : f.canRead with
    | true => simp [Option.filter, hr, orIOException, pure, Except.pure]
    | false => simp [Option.filter, hr, orIOException]

end Reading

theorem read_ok_iff {data : List UInt8} : orIOException ((fs.file fileName).filter FileNode.canRead) >>=
    SecureFileReader.fileRead = .ok data ↔ Holds fs fileName data := by
  unfold Holds
  cases fs.file fileName with
  | none => exact iff_of_false nofun fun ⟨_, h, _⟩ => nomatch h
  | some f =>
    cases hr : f.canRead with
    | true => simp [Option.filter, hr, orIOException, bind, Except.bind]
    | false => simp [Option.filter, hr, orIOException, bind, Except.bind]

theorem read_io_iff : orIOException ((fs.file fileName).filter FileNode.canRead) >>=
    SecureFileReader.fileRead = .error .io ↔ Unread fs fileName := by
  unfold Unread
  cases fs.file fileName with
  | none => exact iff_of_true rfl nofun
  | some f =>
    cases hr : f.canRead with
    | true => simp [Option.filter, hr, orIOException, bind, Except.bind]
    | false => simp [Option.filter, hr, orIOException, bind, Except.bind]

/-- A page shows a file that was read, or the error page. -/
theorem readFileContents_bytes {P : FileAccessPermission} {ERROR : Option (List UInt8)}
    (bytes : Option (List UInt8)) :
    (readFileContents fs P webRoot ERROR fileName).map Page.bytes = .ok bytes ↔
      (∃ data, SecureFileReader.readIn fs P fileName webRoot = .ok data ∧ bytes = some data) ∨
      (SecureFileReader.readIn fs P fileName webRoot = .error .io ∧ bytes = ERROR) := by
  unfold readFileContents
  cases SecureFileReader.readIn fs P fileName webRoot with
  | ok data => simp [Except.map, Page.bytes, eq_comm]
  | error e =>
    cases e with
    | io => simp [Except.map, Page.bytes, eq_comm]
    | unchecked e => simp [Except.map]

/-- **A static page**: what is read of the files, or the error page; a path that
leads elsewhere is answered with nothing. -/
theorem handleRequest_ok_iff {H : StaticPageHandler} (hroot : fs.getCanonicalPath H.webRoot = some root)
    (hP : H.permission.readPaths = [root.getPath]) (path : Text) (bytes : Option (List UInt8)) :
    (H.handleRequest fs path).map Page.bytes = .ok bytes ↔
      ∃ data, bytes = some data ∧ Shows fs root (requestedFile H.webRoot path) H.ERROR data := by
  unfold handleRequest
  rw [readFileContents_bytes]
  generalize requestedFile H.webRoot path = fileName
  cases hc : fs.getCanonicalPath fileName with
  | none =>
    rw [readIn_unresolved hc]
    constructor
    · rintro (⟨data, h, -⟩ | ⟨-, rfl⟩)
      · cases h
      · exact ⟨_, rfl, .unresolved hc⟩
    · rintro ⟨data, rfl, h⟩
      cases h with
      | file inside holds =>
        obtain ⟨p, hp, -⟩ := inside
        simp [hc] at hp
      | unread inside unread => exact .inr ⟨rfl, rfl⟩
      | unresolved nowhere => exact .inr ⟨rfl, rfl⟩
  | some p =>
    by_cases hin : root.names <+: p.names ∨ root.Beside p
    · rw [readIn_inside hP hroot ⟨p, hc, hin⟩, read_io_iff]
      simp only [read_ok_iff]
      constructor
      · rintro (⟨data, h, rfl⟩ | ⟨h, rfl⟩)
        · exact ⟨data, rfl, .file ⟨p, hc, hin⟩ h⟩
        · exact ⟨_, rfl, .unread ⟨p, hc, hin⟩ h⟩
      · rintro ⟨data, rfl, h⟩
        cases h with
        | file inside holds => exact .inl ⟨data, holds, rfl⟩
        | unread inside unread => exact .inr ⟨unread, rfl⟩
        | unresolved nowhere => simp [hc] at nowhere
    · rw [readIn_outside hP hc hin]
      constructor
      · rintro (⟨data, h, -⟩ | ⟨h, -⟩) <;> cases h
      · rintro ⟨data, rfl, h⟩
        have hnot : ¬ Inside fs root fileName := by
          rintro ⟨q, hq, h⟩
          rw [hc] at hq
          cases hq
          exact hin h
        cases h with
        | file inside holds => exact absurd inside hnot
        | unread inside unread => exact absurd inside hnot
        | unresolved nowhere => simp [hc] at nowhere

end StaticPageHandler

/-! ### The three web handlers -/

namespace WebHandler

variable {D : DynamicPageHandler} {S : StaticPageHandler} {fs : FileSystem} {root : CanonicalPath}

@[simp] theorem sanitizePath_cons (path : Text) : sanitizePath ('/' :: path) = '/' :: sanitizePath path := rfl

/-- What a request is answered with: the response of a handler, if the path has
one of the documented forms once it is sanitized, or a static page. -/
inductive Answers (D : DynamicPageHandler) (S : StaticPageHandler) (fs : FileSystem) (root : CanonicalPath)
    (path : Text) : List UInt8 → Prop
  | dynamic {handler : DataRequestHandler} {param : Text} {type : DATA_TYPE} {response : List UInt8}
      (form : D.Form (sanitizePath path) handler param type)
      (run : DynamicPageHandler.run handler param type = .ok (some response)) : Answers D S fs root path response
  | static {page : List UInt8} (plain : ¬ ∃ handler param type, D.Form (sanitizePath path) handler param type)
      (shows : StaticPageHandler.Shows fs root (StaticPageHandler.requestedFile S.webRoot (sanitizePath path)) S.ERROR
        page) : Answers D S fs root path page

theorem handle_ok_iff_getResponse {W : WebHandler} {path : Option Text} {bytes : List UInt8} :
    W.handle fs path = .ok bytes ↔ W.getResponse fs path = .ok (some bytes) := by
  unfold handle
  cases W.getResponse fs path with
  | error e => simp [bind, Except.bind]
  | ok response =>
    cases response with
    | none => simp [bind, Except.bind]
    | some response => simp [bind, Except.bind, pure, Except.pure]

/-- With a response of the dynamic handler, no file is looked for. -/
theorem getResponse_of_dynamic {path : Text} {response : List UInt8} (S : Option StaticPageHandler)
    (h : D.handleRequest (sanitizePath path) = .ok (some response)) :
    (⟨some D, S⟩ : WebHandler).getResponse fs (some path) = .ok (some response) := by
  simp [getResponse, request, h, bind, Except.bind, pure, Except.pure]

theorem getResponse_error {path : Text} {e : JavaError} (S : Option StaticPageHandler)
    (h : D.handleRequest (sanitizePath path) = .error e) :
    (⟨some D, S⟩ : WebHandler).getResponse fs (some path) = .error e := by
  simp [getResponse, request, h, bind, Except.bind]

theorem getResponse_of_static {path : Text} (h : D.handleRequest (sanitizePath path) = .ok none) :
    (ofBoth D S).getResponse fs (some path) = (S.handleRequest fs (sanitizePath path)).map Page.bytes := by
  cases hs : S.handleRequest fs (sanitizePath path) with
  | error e => simp [getResponse, ofBoth, request, h, hs, bind, Except.bind, Except.map]
  | ok page => simp [getResponse, ofBoth, request, h, hs, bind, Except.bind, Except.map, pure, Except.pure]

theorem getResponse_ofDynamic_none {path : Text} (h : D.handleRequest (sanitizePath path) = .ok none) :
    (ofDynamic D).getResponse fs (some path) = .ok none := by
  simp [getResponse, ofDynamic, request, h, bind, Except.bind, pure, Except.pure]

theorem handle_ofStatic (S : StaticPageHandler) (fs : FileSystem) (path : Option Text) :
    (ofStatic S).handle fs path = .ok (Utf8.encode ERROR_MSG) := rfl

/-- A path from a slash on either has a documented form, and its handler is run;
or it has none, and the dynamic handler's answer is null. -/
theorem dynamic_cases (hD : D.WellNamed) (path : Text) :
    (∃ handler param type, D.Form (sanitizePath ('/' :: path)) handler param type ∧
      D.handleRequest (sanitizePath ('/' :: path)) = DynamicPageHandler.run handler param type) ∨
    ((¬ ∃ handler param type, D.Form (sanitizePath ('/' :: path)) handler param type) ∧
      D.handleRequest (sanitizePath ('/' :: path)) = .ok none) := by
  by_cases h : ∃ handler param type, D.Form (sanitizePath ('/' :: path)) handler param type
  · obtain ⟨handler, param, type, hform⟩ := h
    exact .inl ⟨handler, param, type, hform, DynamicPageHandler.handleRequest_of_form hD hform⟩
  · refine .inr ⟨h, ?_⟩
    rw [sanitizePath_cons] at h ⊢
    rw [DynamicPageHandler.handleRequest, DynamicPageHandler.caught_getResponse_eq_none_iff,
      Option.eq_none_iff_forall_ne_some]
    intro handler hhandler
    exact h ⟨handler, _, _, DynamicPageHandler.form_of_requestOf hhandler⟩

/-- The handler, parameter and type of a form are told by the path. -/
theorem run_eq_of_form (hD : D.WellNamed) {path : Text} {handler handler' : DataRequestHandler} {param param' : Text}
    {type type' : DATA_TYPE} (h : D.Form path handler param type) (h' : D.Form path handler' param' type') :
    DynamicPageHandler.run handler' param' type' = DynamicPageHandler.run handler param type := by
  rw [← DynamicPageHandler.handleRequest_of_form hD h, ← DynamicPageHandler.handleRequest_of_form hD h']

/-- Without static pages, a path of no form gives no response that could be
sent. -/
theorem handle_ofDynamic_iff (hD : D.WellNamed) (path : Text) (bytes : List UInt8) :
    (ofDynamic D).handle fs (some ('/' :: path)) = .ok bytes ↔
      ∃ handler param type, D.Form (sanitizePath ('/' :: path)) handler param type ∧
        DynamicPageHandler.run handler param type = .ok (some bytes) := by
  rw [handle_ok_iff_getResponse]
  rcases dynamic_cases hD path with ⟨handler, param, type, hform, hrun⟩ | ⟨hplain, hnone⟩
  · constructor
    · intro h
      refine ⟨handler, param, type, hform, ?_⟩
      cases hr : DynamicPageHandler.run handler param type with
      | error e =>
        rw [ofDynamic, getResponse_error _ (hrun.trans hr)] at h
        cases h
      | ok response =>
        cases response with
        | none => exact absurd hr (DynamicPageHandler.run_ne_none handler param type)
        | some response =>
          rw [ofDynamic, getResponse_of_dynamic _ (hrun.trans hr)] at h
          cases h
          rfl
    · rintro ⟨handler', param', type', hform', hrun'⟩
      rw [run_eq_of_form hD hform hform'] at hrun'
      exact getResponse_of_dynamic _ (hrun.trans hrun')
  · rw [getResponse_ofDynamic_none hnone]
    refine iff_of_false nofun ?_
    rintro ⟨handler, param, type, hform, -⟩
    exact hplain ⟨handler, param, type, hform⟩

theorem handle_ofBoth_iff (hD : D.WellNamed) (hroot : fs.getCanonicalPath S.webRoot = some root)
    (hS : S.permission.readPaths = [root.getPath]) (path : Text) (bytes : List UInt8) :
    (ofBoth D S).handle fs (some ('/' :: path)) = .ok bytes ↔ Answers D S fs root ('/' :: path) bytes := by
  rw [handle_ok_iff_getResponse]
  rcases dynamic_cases hD path with ⟨handler, param, type, hform, hrun⟩ | ⟨hplain, hnone⟩
  · have hanswers : Answers D S fs root ('/' :: path) bytes ↔
        DynamicPageHandler.run handler param type = .ok (some bytes) := by
      constructor
      · intro h
        cases h with
        | dynamic form run => rw [← run, run_eq_of_form hD form hform]
        | static plain => exact absurd ⟨handler, param, type, hform⟩ plain
      · exact .dynamic hform
    rw [hanswers]
    cases hr : DynamicPageHandler.run handler param type with
    | error e => rw [ofBoth, getResponse_error _ (hrun.trans hr)]
    | ok response =>
      cases response with
      | none => exact absurd hr (DynamicPageHandler.run_ne_none handler param type)
      | some response => rw [ofBoth, getResponse_of_dynamic _ (hrun.trans hr)]
  · rw [getResponse_of_static hnone, StaticPageHandler.handleRequest_ok_iff hroot hS]
    constructor
    · rintro ⟨data, hdata, hshows⟩
      cases hdata
      exact .static hplain hshows
    · intro h
      cases h with
      | dynamic form run => exact absurd ⟨_, _, _, form⟩ hplain
      | static plain shows => exact ⟨bytes, rfl, shows⟩

/-- **The server's answers.** With the white list of the controller, the web
handlers of the three constructors answer a request with: the response of a
handler, for the documented forms, and else a static page; the former alone; and
the word `ERROR`, whatever the path, where no dynamic handler is given. -/
theorem handle_ok_iff {fs₀ : FileSystem} {webRoot snmpMibFilePath : Text} {P : FileAccessPermission}
    (hP : initSecurityPermissions fs₀ ⟨[], []⟩ webRoot snmpMibFilePath = .ok P)
    (hS : StaticPageHandler.create fs₀ P webRoot = .ok S) (hD : D.WellNamed)
    (hroot : fs₀.getCanonicalPath webRoot = some root) (hsame : fs.getCanonicalPath webRoot = some root)
    (path : Text) (bytes : List UInt8) :
    ((ofBoth D S).handle fs (some ('/' :: path)) = .ok bytes ↔ Answers D S fs root ('/' :: path) bytes) ∧
    ((ofDynamic D).handle fs (some ('/' :: path)) = .ok bytes ↔
      ∃ handler param type, D.Form (sanitizePath ('/' :: path)) handler param type ∧
        DynamicPageHandler.run handler param type = .ok (some bytes)) ∧
    ((ofStatic S).handle fs (some ('/' :: path)) = .ok bytes ↔ bytes = Utf8.encode ERROR_MSG) := by
  obtain ⟨rfl, rfl⟩ := StaticPageHandler.create_ok hS
  obtain ⟨root', mib, hroot', -, hpaths⟩ := initSecurityPermissions_paths hP
  rw [hroot] at hroot'
  cases hroot'
  have hlist : S.permission.readPaths = [root.getPath] := by rw [hpaths, List.nil_append]
  refine ⟨handle_ofBoth_iff hD hsame hlist path bytes, handle_ofDynamic_iff hD path bytes, ?_⟩
  rw [handle_ofStatic, Except.ok.injEq, eq_comm]

/-- The index page of a web root with a sibling. -/
theorem handle_ok_iff_siblings : ∃ root, StaticPageHandler.siblings.getCanonicalPath StaticPageHandler.WEB_ROOT = some root ∧
    Answers (.create DynamicPageHandler.echoes [.JSON]) StaticPageHandler.siblingsHandler StaticPageHandler.siblings
      root ['/'] [1] :=
  ⟨_, rfl, (handle_ok_iff StaticPageHandler.siblings_permitted StaticPageHandler.siblings_created
    (DynamicPageHandler.create_wellNamed DynamicPageHandler.echoes [.JSON]) rfl rfl [] [1]).1.mp (by decide +kernel)⟩

end WebHandler

end Plethora
