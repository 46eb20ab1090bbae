/-
# The file of the MIB

`MIBEngine.generateMib` writes the MIB into a file of the web root when the SNMP
agent starts and whenever it is told of a new connection, and the web server
shows that file. Whether the write succeeded is told by `IOException`s alone:
what `SecureFileWriter.write` returns is not looked at, and the copying writer
returns false for a copy that is whole.

So the page is the MIB that was reported as written last, throughout a run,
exactly if the writer's steps leave the text or what there was, as reported
(`page_reported_iff`). And where the file is not there or cannot be written when
the server starts, no MIB is ever written, and the page stays what it was, though
the permission to write it was given (`page_never_written`).

Key definitions: `MIBEngine.writeMib`, `MIBEngine.generateMibFile`, `MibFile.State`, `MibFile.Step`,
`MibFile.Faithful`.
Key theorems: `CopyingFileWriter.reports_iff`, `MibFile.page_reported_iff`, `MibFile.page_never_written`.
-/
import Plethora.Io.SecureFileWriter
import Plethora.Lib.Runs
import Plethora.Snmp.MibLabels
import Plethora.Web.WebHandler

namespace Plethora

/-! ### The writer's reports -/

namespace CopyingFileWriter

/-- With an exception the destination holds what it did, and the text otherwise,
whatever is returned. -/
def Reports (old bytes : List UInt8) : Outcome Thrown Files Bool → Prop
  | .returned _ files => files.dest = bytes
  | .thrown _ files => files.dest = old
  | .unfinished => False

/-- The condition on the steps. -/
structure Faithful (io : StepOutcomes) (old bytes : List UInt8) : Prop where
  /-- What is renamed is whole, -/
  renamed : io.WroteTemp → io.renameTo = true → io.writeTemp.content bytes = bytes
  /-- and so is a copy that comes to its end. -/
  copied : io.Copies → ∀ count, io.copy = .copied count → (io.writeTemp.content bytes).take count = bytes
  /-- What is written directly is whole, -/
  cutOff : io.Falls → io.Opens → ∀ count, io.writeDirect = .cutOff count → bytes.take count = bytes
  /-- or is what there was, where `write` throws. -/
  failed : io.Falls → io.Opens → ∀ count, io.writeDirect = .failed count → bytes.take count = old
  /-- A copy that throws leaves what there was, where nothing is written then. -/
  unopened : io.Falls → ¬ io.Opens → io.Copies → (io.writeTemp.content bytes).take io.copy.count = old

variable {io : StepOutcomes} {str : Text} {files : Files} {old bytes : List UInt8}

theorem faithful_of_not_falls (hf : ¬ io.Falls) :
    Faithful io old bytes ↔ (io.WroteTemp → io.renameTo = true → io.writeTemp.content bytes = bytes) ∧
      (io.Copies → ∀ count, io.copy = .copied count → (io.writeTemp.content bytes).take count = bytes) :=
  ⟨fun h => ⟨h.renamed, h.copied⟩, fun h => ⟨h.1, h.2, fun hf' => absurd hf' hf, fun hf' => absurd hf' hf,
    fun hf' => absurd hf' hf⟩⟩

/-- Where the write by way of a copy throws, the rest is the direct write. -/
theorem faithful_of_falls (hf : io.Falls) :
    Faithful io old bytes ↔
      (io.Opens → ∀ count, io.writeDirect = .cutOff count → bytes.take count = bytes) ∧
      (io.Opens → ∀ count, io.writeDirect = .failed count → bytes.take count = old) ∧
      (¬ io.Opens → io.Copies → (io.writeTemp.content bytes).take io.copy.count = old) := by
  constructor
  · exact fun h => ⟨h.cutOff hf, h.failed hf, h.unopened hf⟩
  · rintro ⟨hcut, hfailed, hunopened⟩
    refine ⟨fun hw hr => ?_, fun hc count hcopy => ?_, fun _ => hcut, fun _ => hfailed, fun _ => hunopened⟩
    · exact absurd ((hf.2.1 hw).symm.trans hr) Bool.false_ne_true
    · exact absurd hf (not_falls_of_copied hc hcopy)

/-- The direct write returns nothing but true. -/
theorem uncheckedWrite_reports (hs : str ≠ []) : Reports old (Utf8.encode str) (uncheckedWrite io str files) ↔
    AllOrNothing old (Utf8.encode str) (uncheckedWrite io str files) := by
  have hcases : Unchecked io str files (uncheckedWrite io str files) := uncheckedWrite_cases hs
  generalize uncheckedWrite io str files = result at hcases ⊢
  cases hcases <;> rfl

/-- **A write is as reported exactly if its steps are faithful.** -/
theorem reports_iff (io : StepOutcomes) (old : List UInt8) (hs : str ≠ []) :
    Reports old (Utf8.encode str) (fileWrite io str ⟨[], old⟩) ↔ Faithful io old (Utf8.encode str) := by
  rw [fileWrite_eq hs]
  have hcases : Checked io str ⟨[], old⟩ (checkedWrite io str ⟨[], old⟩) := checkedWrite_cases hs
  generalize checkedWrite io str ⟨[], old⟩ = result at hcases ⊢
  cases hcases with
  | refused h hw =>
    rw [faithful_of_not_falls h]
    exact iff_of_true rfl ⟨fun h' => absurd h' hw, fun h' => absurd h'.1 hw⟩
  | renamed h hren temp =>
    have hf : ¬ io.Falls := fun hf => absurd ((hf.2.1 h).symm.trans hren) Bool.false_ne_true
    have hc : ¬ io.Copies := fun hc => absurd (hc.2.1.symm.trans hren) Bool.false_ne_true
    rw [faithful_of_not_falls hf]
    exact ⟨fun hall => ⟨fun _ _ => hall, fun h' => absurd h' hc⟩, fun hsound => hsound.1 h hren⟩
  | copied h count hcopy temp =>
    rw [faithful_of_not_falls (not_falls_of_copied h hcopy)]
    constructor
    · intro hall
      refine ⟨fun _ hren => absurd (h.2.1.symm.trans hren) Bool.false_ne_true, fun _ count' hcopy' => ?_⟩
      rw [hcopy] at hcopy'
      cases hcopy'
      exact hall
    · exact fun hsound => hsound.2 h count hcopy
  | uncopied h hc temp =>
    rw [faithful_of_falls h]
    refine (uncheckedWrite_reports hs).trans ((uncheckedWrite_iff hs).trans ?_)
    refine and_congr_right fun _ => and_congr_right fun _ => forall_congr' fun _ => ?_
    exact ⟨fun h _ => h, fun h => h hc⟩
  | intact h hc temp =>
    rw [faithful_of_falls h]
    refine (uncheckedWrite_reports hs).trans ((uncheckedWrite_iff hs).trans ?_)
    refine and_congr_right fun _ => and_congr_right fun _ => forall_congr' fun _ => ?_
    exact iff_of_true rfl fun hc' => absurd hc' hc

/-- A write comes to an end. -/
theorem fileWrite_ends (io : StepOutcomes) (files : Files) (hs : str ≠ []) :
    (∃ done after, fileWrite io str files = .returned done after) ∨
      ∃ e after, fileWrite io str files = .thrown e after := by
  have hdirect : ∀ files, (∃ done after, uncheckedWrite io str files = .returned done after) ∨
      ∃ e after, uncheckedWrite io str files = .thrown e after := by
    intro files
    have hcases : Unchecked io str files (uncheckedWrite io str files) := uncheckedWrite_cases hs
    generalize uncheckedWrite io str files = result at hcases ⊢
    cases hcases <;> simp
  rw [fileWrite_eq hs]
  have hcases : Checked io str files (checkedWrite io str files) := checkedWrite_cases hs
  generalize checkedWrite io str files = result at hcases ⊢
  cases hcases with
  | refused h hw => exact .inr ⟨_, _, rfl⟩
  | renamed h hren temp => exact .inl ⟨_, _, rfl⟩
  | copied h count hcopy temp => exact .inl ⟨_, _, rfl⟩
  | uncopied h hc temp => exact hdirect _
  | intact h hc temp => exact hdirect _

end CopyingFileWriter

/-! ### The engine -/

namespace ServerConfiguration

def SNMP_MIB_LOCATION : Text := "snmp".toList

def SNMP_MIB_FILE : Text := "mib".toList

def getSnmpMibFilePath : Text := SNMP_MIB_LOCATION ++ '/' :: SNMP_MIB_FILE

def getSnmpMibUrlPath : Text := SNMP_MIB_LOCATION ++ '/' :: SNMP_MIB_FILE

end ServerConfiguration

open ServerConfiguration

namespace MIBEngine

def buildFileName (webRoot : Text) : Text := webRoot ++ '/' :: ("snmp".toList ++ '/' :: "mib".toList)

/-- `writeMib`: an `IOException` is logged, others pass through. -/
def writeMib (P : FileAccessPermission) (webRoot : Text) (io : CopyingFileWriter.StepOutcomes) (content : Text) :
    Eff JavaError FileSystem Bool := fun fs =>
  match SecureFileWriter.write P io (buildFileName webRoot) content fs with
  | .returned _ fs => .returned true fs
  | .thrown .io fs => .returned false fs
  | .thrown (.unchecked e) fs => .thrown e fs
  | .unfinished => .unfinished

/-- `generateMib`, with the writing of the file. -/
def generateMibFile (engine : MIBEngine) (date : Text) (numbers : List ℕ) (names : List Text)
    (P : FileAccessPermission) (webRoot : Text) (io : CopyingFileWriter.StepOutcomes) : Eff JavaError FileSystem Bool := do
  let content ← Eff.lift (engine.generateMib date numbers names)
  writeMib P webRoot io content

/-- The MIB has an end line. -/
theorem generateMib_ne_nil {engine : MIBEngine} {date text : Text} {numbers : List ℕ} {names : List Text}
    (h : engine.generateMib date numbers names = .ok text) : text ≠ [] := by
  obtain ⟨oidMap, -, h⟩ := bind_eq_ok.mp h
  obtain ⟨sections, -, h⟩ := bind_eq_ok.mp h
  cases h
  have hend : Template.END_LINE ≠ [] := by decide
  simp [contents, hend]

end MIBEngine

/-! ### Runs -/

namespace MibFile

open MIBEngine

/-- A MIB that the SNMP agent generates, with how writing it comes out. -/
structure Generation where
  engine : MIBEngine
  date : Text
  numbers : List ℕ
  names : List Text
  io : CopyingFileWriter.StepOutcomes

namespace Generation

variable (G : Generation)

def text : Except JavaError Text := G.engine.generateMib G.date G.numbers G.names

def run (P : FileAccessPermission) (webRoot : Text) : Eff JavaError FileSystem Bool :=
  G.engine.generateMibFile G.date G.numbers G.names P webRoot G.io

end Generation

/-- The files, and the MIB that was reported as written last. -/
structure State where
  fs : FileSystem
  reported : List UInt8

inductive Event
  | generate (G : Generation)
  | elsewhere (fs : FileSystem)

/-- Other files change. -/
structure Elsewhere (webRoot : Text) (fs fs' : FileSystem) : Prop where
  normalizing : fs'.Normalizing
  root : fs'.getCanonicalPath webRoot = fs.getCanonicalPath webRoot
  path : fs'.getCanonicalPath (buildFileName webRoot) = fs.getCanonicalPath (buildFileName webRoot)
  file : fs'.file (buildFileName webRoot) = fs.file (buildFileName webRoot)

/-- Generations, which report that the file was written, or that it was not, or
throw; and changes elsewhere. -/
inductive Step (P : FileAccessPermission) (webRoot : Text) : State → Event → State → Prop
  | written {s : State} {G : Generation} {text : Text} {fs : FileSystem} (built : G.text = .ok text)
      (run : G.run P webRoot s.fs = .returned true fs) :
      Step P webRoot s (.generate G) ⟨fs, Utf8.encode text⟩
  | notWritten {s : State} {G : Generation} {fs : FileSystem} (run : G.run P webRoot s.fs = .returned false fs) :
      Step P webRoot s (.generate G) { s with fs := fs }
  | throws {s : State} {G : Generation} {e : JavaError} {fs : FileSystem} (run : G.run P webRoot s.fs = .thrown e fs) :
      Step P webRoot s (.generate G) { s with fs := fs }
  | elsewhere {s : State} {fs : FileSystem} (change : Elsewhere webRoot s.fs fs) :
      Step P webRoot s (.elsewhere fs) { s with fs := fs }

/-- What the step's writing leaves is as reported. -/
def FaithfulAt (s : State) : Event → Prop
  | .generate G => ∀ text, G.text = .ok text → CopyingFileWriter.Faithful G.io s.reported (Utf8.encode text)
  | .elsewhere _ => True

/-- What the web server answers to the request for the MIB. -/
def page (D : DynamicPageHandler) (S : StaticPageHandler) (fs : FileSystem) : Except JavaError (List UInt8) :=
  (WebHandler.ofBoth D S).handle fs (some ('/' :: getSnmpMibUrlPath))

/-! ### The page of the MIB -/

theorem handleRequest_mib (R : DynamicPageHandler.Responses) (types : List DATA_TYPE) :
    (DynamicPageHandler.create R types).handleRequest ('/' :: getSnmpMibUrlPath) = .ok none := by
  have hname : (DynamicPageHandler.create R types).HANDLERS.lookup SNMP_MIB_LOCATION = none := by
    by_contra h
    have hmem := mem_keys_iff.mpr (Option.isSome_iff_ne_none.mpr h)
    rcases DynamicPageHandler.mem_names_initHandlers.mp hmem with h | h
    · exact absurd h (by decide +kernel)
    · exact absurd h List.not_mem_nil
  have hword : (DynamicPageHandler.create R types).DATA_TYPES.lookup SNMP_MIB_LOCATION = none := by
    by_contra h
    have hmem := mem_keys_iff.mpr (Option.isSome_iff_ne_none.mpr h)
    rcases (DynamicPageHandler.mem_words_initDataTypes types).mp hmem with ⟨type, -, h⟩ | h
    · exact absurd h (by cases type <;> decide +kernel)
    · exact absurd h List.not_mem_nil
  have hslash : '/' ∉ SNMP_MIB_LOCATION := by decide +kernel
  rw [DynamicPageHandler.handleRequest, getSnmpMibUrlPath, DynamicPageHandler.requestOf_plain hslash hword,
    DynamicPageHandler.caught_getResponse_eq_none_iff]
  exact hname

theorem requestedFile_mib (webRoot : Text) : StaticPageHandler.requestedFile webRoot ('/' :: getSnmpMibUrlPath) =
    webRoot ++ '/' :: '/' :: ("snmp".toList ++ '/' :: "mib".toList) := by
  have hlong : ¬ ('/' :: getSnmpMibUrlPath = ['/'] ∨ ('/' :: getSnmpMibUrlPath).length < 1) := by decide +kernel
  have htrim : trim ('/' :: getSnmpMibUrlPath) = '/' :: ("snmp".toList ++ '/' :: "mib".toList) := by decide +kernel
  rw [StaticPageHandler.requestedFile, if_neg hlong, StaticPageHandler.resolvedPath, htrim]

/-- The request for the MIB names the file that it is written to. -/
theorem normalizing_mib {fs : FileSystem} (hn : fs.Normalizing) (webRoot : Text) :
    fs.getCanonicalPath (StaticPageHandler.requestedFile webRoot ('/' :: getSnmpMibUrlPath)) =
        fs.getCanonicalPath (buildFileName webRoot) ∧
      fs.file (StaticPageHandler.requestedFile webRoot ('/' :: getSnmpMibUrlPath)) =
        fs.file (buildFileName webRoot) := by
  rw [requestedFile_mib]
  exact hn _ _ (JavaFile.normalize_separators ..)

section Page

variable {R : DynamicPageHandler.Responses} {types : List DATA_TYPE} {S : StaticPageHandler} {fs fs' : FileSystem}

theorem getResponse_mib : (WebHandler.ofBoth (.create R types) S).getResponse fs (some ('/' :: getSnmpMibUrlPath)) =
    (S.handleRequest fs ('/' :: getSnmpMibUrlPath)).map Page.bytes := by
  have hsame : WebHandler.sanitizePath ('/' :: getSnmpMibUrlPath) = '/' :: getSnmpMibUrlPath := by decide +kernel
  have hnone := handleRequest_mib R types
  rw [← hsame] at hnone
  rw [WebHandler.getResponse_of_static hnone, hsame]

/-- The page shows the file. -/
theorem page_of_keeps {root mib : CanonicalPath} {data : List UInt8} (hn : fs.Normalizing)
    (hlist : S.permission.readPaths = [root.getPath]) (hroot : fs.getCanonicalPath S.webRoot = some root)
    (hmib : fs.getCanonicalPath (buildFileName S.webRoot) = some mib) (hin : root.names <+: mib.names)
    (h : fs.Keeps (buildFileName S.webRoot) data) : page (.create R types) S fs = .ok data := by
  obtain ⟨hpath, hfile⟩ := normalizing_mib hn S.webRoot
  obtain ⟨f, hf, -, hr, -, hread⟩ := h.found
  rw [page, WebHandler.handle_ok_iff_getResponse, getResponse_mib, StaticPageHandler.handleRequest_ok_iff hroot hlist]
  refine ⟨data, rfl, .file ⟨mib, hpath.trans hmib, .inl hin⟩ ⟨f, hfile.trans hf, hr, ?_⟩⟩
  rw [SecureFileReader.fileRead, hread]

/-- Changes elsewhere do not change the page. -/
theorem page_congr (hn : fs.Normalizing) (h : Elsewhere S.webRoot fs fs') :
    page (.create R types) S fs' = page (.create R types) S fs := by
  have hsame : S.handleRequest fs' ('/' :: getSnmpMibUrlPath) = S.handleRequest fs ('/' :: getSnmpMibUrlPath) := by
    obtain ⟨hpath, hfile⟩ := normalizing_mib hn S.webRoot
    obtain ⟨hpath', hfile'⟩ := normalizing_mib h.normalizing S.webRoot
    simp only [StaticPageHandler.handleRequest, StaticPageHandler.readFileContents, SecureFileReader.readIn,
      SecureFileReader.getTrustedValidReadableFileIn, SecureFileReader.getTrustedValidReadableFile,
      SecureFileReader.verifyParent, FileAccessPermission.canonicalPath, hpath, hfile, hpath', hfile', h.root, h.path,
      h.file]
  rw [page, page, WebHandler.handle, WebHandler.handle, getResponse_mib, getResponse_mib, hsame]

end Page

/-! ### What a step does -/

section Steps

variable {P : FileAccessPermission} {webRoot : Text} {root mib : CanonicalPath} {s t : State}

/-- The file of the MIB can be written, and holds the MIB that was reported. -/
structure Shown (webRoot : Text) (root mib : CanonicalPath) (fs : FileSystem) (data : List UInt8) : Prop where
  normalizing : fs.Normalizing
  root : fs.getCanonicalPath webRoot = some root
  path : fs.getCanonicalPath (buildFileName webRoot) = some mib
  keeps : fs.Keeps (buildFileName webRoot) data

theorem Shown.store {fs : FileSystem} {data : List UInt8} (h : Shown webRoot root mib fs data) (data' : List UInt8) :
    Shown webRoot root mib (fs.store (buildFileName webRoot) data') data' :=
  ⟨FileSystem.store_normalizing h.normalizing, h.root, h.path, FileSystem.store_keeps h.path h.keeps data'⟩

theorem Shown.elsewhere {fs fs' : FileSystem} {data : List UInt8} (h : Shown webRoot root mib fs data)
    (change : Elsewhere webRoot fs fs') : Shown webRoot root mib fs' data := by
  refine ⟨change.normalizing, change.root.trans h.root, change.path.trans h.path, ⟨?_⟩⟩
  rw [change.file]
  exact h.keeps.found

theorem run_built {fs : FileSystem} {G : Generation} {text : Text} (ht : G.text = .ok text) :
    G.run P webRoot fs = writeMib P webRoot G.io text fs := by
  rw [Generation.run, generateMibFile, Eff.bind_apply]
  rw [Generation.text] at ht
  rw [ht]
  rfl

/-- How a generation comes out where the file is there. -/
theorem run_shown {fs : FileSystem} {data : List UInt8} {G : Generation} {text : Text}
    (hP : P.isWritePermittedPath mib.getPath = true) (h : Shown webRoot root mib fs data) (ht : G.text = .ok text) :
    (∃ done files, CopyingFileWriter.fileWrite G.io text ⟨[], data⟩ = .returned done files ∧
      G.run P webRoot fs = .returned true (fs.store (buildFileName webRoot) files.dest)) ∨
    ∃ e files, CopyingFileWriter.fileWrite G.io text ⟨[], data⟩ = .thrown e files ∧
      (G.run P webRoot fs = .returned false (fs.store (buildFileName webRoot) files.dest) ∨
        ∃ e, G.run P webRoot fs = .thrown e (fs.store (buildFileName webRoot) files.dest)) := by
  have hwrite : SecureFileWriter.write P G.io (buildFileName webRoot) text fs =
      SecureFileWriter.stored fs (buildFileName webRoot) (CopyingFileWriter.fileWrite G.io text ⟨[], data⟩) :=
    SecureFileWriter.write_kept h.path hP h.keeps
  rw [run_built ht, writeMib, hwrite]
  rcases CopyingFileWriter.fileWrite_ends G.io ⟨[], data⟩ (generateMib_ne_nil ht) with
    ⟨done, files, hw⟩ | ⟨e, files, hw⟩
  · exact .inl ⟨done, files, hw, by rw [hw]; rfl⟩
  · refine .inr ⟨e, files, hw, ?_⟩
    rw [hw]
    cases e with
    | ioException => exact .inl rfl
    | illegalArgument => exact .inr ⟨_, rfl⟩

/-- Where the MIB cannot be built, no file changes. -/
theorem run_unbuilt {fs : FileSystem} {G : Generation} {e : JavaError} (ht : G.text = .error e) :
    G.run P webRoot fs = .thrown e fs := by
  rw [Generation.run, generateMibFile, Eff.bind_apply]
  rw [Generation.text] at ht
  rw [ht]
  rfl

theorem shown_store_iff {fs : FileSystem} {data data' data'' : List UInt8} (h : Shown webRoot root mib fs data) :
    Shown webRoot root mib (fs.store (buildFileName webRoot) data') data'' ↔ data' = data'' := by
  constructor
  · exact fun h' => (h.store data').keeps.unique h'.keeps
  · rintro rfl
    exact h.store data'

theorem faithfulAt_iff {G : Generation} {text : Text} (ht : G.text = .ok text) :
    FaithfulAt s (.generate G) ↔ CopyingFileWriter.Reports s.reported (Utf8.encode text)
      (CopyingFileWriter.fileWrite G.io text ⟨[], s.reported⟩) := by
  rw [CopyingFileWriter.reports_iff G.io s.reported (generateMib_ne_nil ht)]
  constructor
  · exact fun h => h text ht
  · intro h text' ht'
    rw [ht] at ht'
    cases ht'
    exact h

/-- The file is there in every state; what is in it may be anything. -/
theorem step_shown {e : Event} (hP : P.isWritePermittedPath mib.getPath = true) (h : Step P webRoot s e t)
    (hs : ∃ data, Shown webRoot root mib s.fs data) : ∃ data, Shown webRoot root mib t.fs data := by
  obtain ⟨data, hs⟩ := hs
  have hgenerate : ∀ {G : Generation} {fs : FileSystem}, ((∃ done, G.run P webRoot s.fs = .returned done fs) ∨
      ∃ e, G.run P webRoot s.fs = .thrown e fs) → ∃ data, Shown webRoot root mib fs data := by
    intro G fs hrun
    cases ht : G.text with
    | error e =>
      rw [run_unbuilt ht] at hrun
      rcases hrun with ⟨_, hrun⟩ | ⟨_, hrun⟩
      · cases hrun
      · cases hrun
        exact ⟨data, hs⟩
    | ok text =>
      rcases run_shown hP hs ht with ⟨_, files, -, h⟩ | ⟨_, files, -, h | ⟨_, h⟩⟩
      all_goals
        rw [h] at hrun
        rcases hrun with ⟨_, hrun⟩ | ⟨_, hrun⟩ <;> cases hrun
        exact ⟨_, hs.store files.dest⟩
  cases h with
  | written built run => exact hgenerate (.inl ⟨_, run⟩)
  | notWritten run => exact hgenerate (.inl ⟨_, run⟩)
  | throws run => exact hgenerate (.inr ⟨_, run⟩)
  | elsewhere change => exact ⟨data, hs.elsewhere change⟩

/-- A step keeps the file as it is reported exactly if it is faithful. -/
theorem step_iff {e : Event} (hP : P.isWritePermittedPath mib.getPath = true) (h : Step P webRoot s e t)
    (hs : Shown webRoot root mib s.fs s.reported) :
    Shown webRoot root mib t.fs t.reported ↔ FaithfulAt s e := by
  cases h with
  | @written G text fs built run =>
    rw [faithfulAt_iff built]
    rcases run_shown hP hs built with ⟨_, files, hw, h⟩ | ⟨_, files, hw, h | ⟨_, h⟩⟩
    all_goals
      rw [h] at run
      cases run
    rw [shown_store_iff hs, hw]
    exact Iff.rfl
  | @notWritten G fs run =>
    cases ht : G.text with
    | error e =>
      rw [run_unbuilt ht] at run
      cases run
    | ok text =>
      rw [faithfulAt_iff ht]
      rcases run_shown hP hs ht with ⟨_, files, hw, h⟩ | ⟨_, files, hw, h | ⟨_, h⟩⟩
      all_goals
        rw [h] at run
        cases run
      rw [shown_store_iff hs, hw]
      exact Iff.rfl
  | @throws G e fs run =>
    cases ht : G.text with
    | error e =>
      rw [run_unbuilt ht] at run
      cases run
      refine iff_of_true hs fun text ht' => ?_
      rw [ht] at ht'
      cases ht'
    | ok text =>
      rw [faithfulAt_iff ht]
      rcases run_shown hP hs ht with ⟨_, files, hw, h⟩ | ⟨_, files, hw, h | ⟨_, h⟩⟩
      all_goals
        rw [h] at run
        cases run
      rw [shown_store_iff hs, hw]
      exact Iff.rfl
  | elsewhere change => exact iff_of_true (hs.elsewhere change) trivial

/-- A file that is not there, or cannot be written, is not written. -/
theorem run_refused {fs : FileSystem} {G : Generation} {text : Text} (ht : G.text = .ok text)
    (h : ∀ f, fs.file (buildFileName webRoot) = some f → f.canWrite = false) :
    G.run P webRoot fs = .returned false fs := by
  rw [run_built ht, writeMib, SecureFileWriter.write_refused h]

theorem run_unwritten {fs : FileSystem} (G : Generation)
    (h : ∀ f, fs.file (buildFileName webRoot) = some f → f.canWrite = false) :
    G.run P webRoot fs = .returned false fs ∨ ∃ e, G.run P webRoot fs = .thrown e fs := by
  cases ht : G.text with
  | error e => exact .inr ⟨e, run_unbuilt ht⟩
  | ok text => exact .inl (run_refused ht h)

/-- Then a step leaves the file and what was reported. -/
theorem step_refused {fs : FileSystem} {e : Event}
    (hfile : ∀ f, fs.file (buildFileName webRoot) = some f → f.canWrite = false) (h : Step P webRoot s e t)
    (hs : Elsewhere webRoot fs s.fs) : Elsewhere webRoot fs t.fs ∧ t.reported = s.reported := by
  have hno : ∀ f, s.fs.file (buildFileName webRoot) = some f → f.canWrite = false := by
    rw [hs.file]
    exact hfile
  cases h with
  | @written G text _ built run =>
    rcases run_unwritten G hno with h | ⟨_, h⟩ <;> rw [h] at run <;> cases run
  | @notWritten G _ run =>
    rcases run_unwritten G hno with h | ⟨_, h⟩ <;> rw [h] at run <;> cases run
    exact ⟨hs, rfl⟩
  | @throws G _ _ run =>
    rcases run_unwritten G hno with h | ⟨_, h⟩ <;> rw [h] at run <;> cases run
    exact ⟨hs, rfl⟩
  | elsewhere change =>
    exact ⟨⟨change.normalizing, change.root.trans hs.root, change.path.trans hs.path, change.file.trans hs.file⟩, rfl⟩

end Steps

/-! ### The page over a run -/

section Serving

variable {fs₀ : FileSystem} {webRoot : Text} {P : FileAccessPermission} {S : StaticPageHandler}
  {root mib : CanonicalPath} (R : DynamicPageHandler.Responses) (types : List DATA_TYPE)

/-- **The page is the MIB that was reported last.** From a server that starts
with the file in its web root, the page of the MIB is throughout what was
reported as written last, or what there was, exactly if every generation that
comes to its writing is faithful. -/
theorem page_reported_iff (hP : initSecurityPermissions fs₀ ⟨[], []⟩ webRoot getSnmpMibFilePath = .ok P)
    (hS : StaticPageHandler.create fs₀ P webRoot = .ok S) (hn : fs₀.Normalizing)
    (hroot : fs₀.getCanonicalPath webRoot = some root) (hmib : fs₀.getCanonicalPath (buildFileName webRoot) = some mib)
    (hin : root.names <+: mib.names) {data : List UInt8} (hdata : fs₀.Keeps (buildFileName webRoot) data)
    {steps : List (State × Event)} {last : State} (hrun : Run (Step P webRoot) ⟨fs₀, data⟩ steps last) :
    Throughout (fun s => page (.create R types) S s.fs = .ok s.reported) steps last ↔
      ∀ p ∈ steps, FaithfulAt p.1 p.2 := by
  obtain ⟨rfl, rfl⟩ := StaticPageHandler.create_ok hS
  obtain ⟨root', mib', hroot', hmib', hpaths⟩ := initSecurityPermissions_paths hP
  rw [hroot] at hroot'
  cases hroot'
  obtain rfl : mib = mib' := Option.some.inj (hmib.symm.trans hmib')
  have hread : S.permission.readPaths = [root.getPath] := by rw [hpaths, List.nil_append]
  have hwrite : S.permission.isWritePermittedPath mib.getPath = true := by
    simp [FileAccessPermission.isWritePermittedPath, FileAccessPermission.checkPath, hpaths]
  have h0 : Shown S.webRoot root mib fs₀ data := ⟨hn, hroot, hmib, hdata⟩
  have hall : Throughout (fun s : State => ∃ data, Shown S.webRoot root mib s.fs data) steps last :=
    hrun.throughout (fun _ _ _ hst hs => step_shown hwrite hst hs) ⟨data, h0⟩
  have hiff : Throughout (fun s : State => Shown S.webRoot root mib s.fs s.reported) steps last ↔
      ∀ p ∈ steps, FaithfulAt p.1 p.2 := hrun.invariant_iff (fun _ _ _ hst hs => step_iff hwrite hst hs) h0
  -- where the file holds anything, the page is what it holds
  have hpage : ∀ s : State, (∃ data, Shown S.webRoot root mib s.fs data) →
      (page (.create R types) S s.fs = .ok s.reported ↔ Shown S.webRoot root mib s.fs s.reported) := by
    rintro s ⟨data, hs⟩
    have hdata : page (.create R types) S s.fs = .ok data :=
      page_of_keeps hs.normalizing hread hs.root hs.path hin hs.keeps
    rw [hdata, Except.ok.injEq]
    exact ⟨fun he => he ▸ hs, fun h => hs.keeps.unique h.keeps⟩
  rw [← hiff]
  exact and_congr (forall₂_congr fun p hp => hpage p.1 (hall.1 p hp)) (hpage last hall.2)

/-- **A MIB that is not there stays so.** Where the file is not there or cannot
be written when the server starts, no generation is ever reported as written,
and the page stays what it was, whatever is permitted. -/
theorem page_never_written (hn : fs₀.Normalizing)
    (hfile : ∀ f, fs₀.file (buildFileName S.webRoot) = some f → f.canWrite = false) {data : List UInt8}
    {steps : List (State × Event)} {last : State} (hrun : Run (Step P S.webRoot) ⟨fs₀, data⟩ steps last) :
    Throughout (fun s => s.reported = data ∧ page (.create R types) S s.fs = page (.create R types) S fs₀) steps last ∧
      ∀ p ∈ steps, ∀ G, p.2 = .generate G → ∀ fs, G.run P S.webRoot p.1.fs ≠ .returned true fs := by
  have h0 : Elsewhere S.webRoot fs₀ fs₀ := ⟨hn, rfl, rfl, rfl⟩
  have hall : Throughout (fun s : State => Elsewhere S.webRoot fs₀ s.fs ∧ s.reported = data) steps last :=
    hrun.throughout (fun s e t hst hs => ⟨(step_refused hfile hst hs.1).1,
      (step_refused hfile hst hs.1).2.trans hs.2⟩) ⟨h0, rfl⟩
  refine ⟨⟨fun p hp => ⟨(hall.1 p hp).2, page_congr hn (hall.1 p hp).1⟩, hall.2.2, page_congr hn hall.2.1⟩, ?_⟩
  intro p hp G _ fs hwritten
  have hno : ∀ f, p.1.fs.file (buildFileName S.webRoot) = some f → f.canWrite = false := by
    rw [(hall.1 p hp).1.file]
    exact hfile
  rcases run_unwritten G hno with h | ⟨_, h⟩ <;> rw [h] at hwritten <;> cases hwritten

end Serving

/-! ### A web root with a MIB, and one without -/

def MIB_NAMES : List Text := [['s', 'r', 'v'], ['w', 'w', 'w'], ['s', 'n', 'm', 'p'], ['m', 'i', 'b']]

def webRoots : List (List Text × FileNode) :=
  [([['s', 'r', 'v'], ['w', 'w', 'w']], StaticPageHandler.directoryNode),
    ([['s', 'r', 'v'], ['w', 'w', 'w'], ['s', 'n', 'm', 'p']], StaticPageHandler.directoryNode)]

def withMib : FileSystem :=
  (StaticPageHandler.plainFiles ((MIB_NAMES, StaticPageHandler.fileNode [0]) :: webRoots)).normalized

def withoutMib : FileSystem := (StaticPageHandler.plainFiles webRoots).normalized

def mibHandler : StaticPageHandler :=
  ⟨StaticPageHandler.WEB_ROOT,
    ⟨[StaticPageHandler.WEB_ROOT], [StaticPageHandler.WEB_ROOT ++ ['/', 's', 'n', 'm', 'p', '/', 'm', 'i', 'b']]⟩, none,
    none, Utf8.encode StaticPageHandler.ERROR_MSG⟩

theorem withMib_permitted : initSecurityPermissions withMib ⟨[], []⟩ StaticPageHandler.WEB_ROOT getSnmpMibFilePath =
    .ok mibHandler.permission := by decide +kernel

theorem withoutMib_permitted : initSecurityPermissions withoutMib ⟨[], []⟩ StaticPageHandler.WEB_ROOT
    getSnmpMibFilePath = .ok mibHandler.permission := by decide +kernel

theorem withMib_created : StaticPageHandler.create withMib mibHandler.permission StaticPageHandler.WEB_ROOT =
    .ok mibHandler := by rfl

/-- The MIB of a server, with which all steps of the writer succeed. -/
def webAppMib : Generation :=
  ⟨SnmpAgent.webApp.mibEngine, [], SnmpAgent.webApp.enterprise.arcs, SnmpAgent.webApp.oidNames,
    CopyingFileWriter.allSucceed⟩

theorem fileWrite_allSucceed {str : Text} (hs : str ≠ []) (old : List UInt8) :
    CopyingFileWriter.fileWrite CopyingFileWriter.allSucceed str ⟨[], old⟩ =
      .returned true ⟨Utf8.encode str, Utf8.encode str⟩ := by
  rw [CopyingFileWriter.fileWrite_eq hs, CopyingFileWriter.checkedWrite, if_neg hs]
  rfl

theorem withMib_shown : ∃ root mib, root.names <+: mib.names ∧
    mibHandler.permission.isWritePermittedPath mib.getPath = true ∧
    Shown StaticPageHandler.WEB_ROOT root mib withMib [0] := by
  refine ⟨_, _, ?_, ?_, FileSystem.normalized_normalizing _, rfl, rfl, ?_⟩
  · decide +kernel
  · decide +kernel
  · exact ⟨_, rfl, rfl, rfl, rfl, rfl⟩

/-- A MIB that is written is shown. -/
theorem page_reported_iff_webApp : ∃ text, webAppMib.text = .ok text ∧
    page (.create DynamicPageHandler.echoes [.JSON]) mibHandler
      (withMib.store (buildFileName StaticPageHandler.WEB_ROOT) (Utf8.encode text)) = .ok (Utf8.encode text) := by
  obtain ⟨text, ht⟩ := SnmpAgent.webApp.generateMib_ok [] SnmpAgent.webApp_registered (by decide)
  have ht : webAppMib.text = .ok text := ht
  obtain ⟨root, mib, hin, hP, hs⟩ := withMib_shown
  have hw := fileWrite_allSucceed (generateMib_ne_nil ht) [0]
  have hrun : webAppMib.run mibHandler.permission StaticPageHandler.WEB_ROOT withMib =
      .returned true (withMib.store (buildFileName StaticPageHandler.WEB_ROOT) (Utf8.encode text)) := by
    rcases run_shown hP hs ht with ⟨done, files, h, hrun⟩ | ⟨e, files, h, -⟩
    · rw [webAppMib, hw] at h
      cases h
      exact hrun
    · rw [webAppMib, hw] at h
      cases h
  have hstep := (Step.written (s := ⟨withMib, [0]⟩) ht hrun)
  refine ⟨text, ht, ?_⟩
  have hiff := page_reported_iff DynamicPageHandler.echoes [.JSON] withMib_permitted withMib_created hs.normalizing
    hs.root hs.path hin hs.keeps (.cons hstep (.nil _))
  refine (hiff.mpr ?_).2
  intro p hp
  rw [List.mem_singleton.mp hp]
  refine (faithfulAt_iff ht).mpr ?_
  rw [webAppMib, hw]
  rfl

/-- Where the file is not there, it is permitted, and the error page stays. -/
theorem page_never_written_withoutMib :
    initSecurityPermissions withoutMib ⟨[], []⟩ StaticPageHandler.WEB_ROOT getSnmpMibFilePath =
        .ok mibHandler.permission ∧
      Step mibHandler.permission mibHandler.webRoot ⟨withoutMib, []⟩ (.generate webAppMib) ⟨withoutMib, []⟩ ∧
      ∀ fs, webAppMib.run mibHandler.permission mibHandler.webRoot withoutMib ≠ .returned true fs := by
  obtain ⟨text, ht⟩ := SnmpAgent.webApp.generateMib_ok [] SnmpAgent.webApp_registered (by decide)
  have ht : webAppMib.text = .ok text := ht
  have hnone : withoutMib.file (buildFileName mibHandler.webRoot) = none := by rfl
  have hfile : ∀ f, withoutMib.file (buildFileName mibHandler.webRoot) = some f → f.canWrite = false := by
    rw [hnone]
    nofun
  have hrun : webAppMib.run mibHandler.permission mibHandler.webRoot withoutMib = .returned false withoutMib :=
    run_refused ht hfile
  have hstep : Step mibHandler.permission mibHandler.webRoot ⟨withoutMib, []⟩ (.generate webAppMib) ⟨withoutMib, []⟩ :=
    .notWritten hrun
  have hnever := page_never_written DynamicPageHandler.echoes [.JSON] (FileSystem.normalized_normalizing _) hfile
    (.cons hstep (.nil _))
  exact ⟨withoutMib_permitted, hstep, hnever.2 _ (List.mem_singleton.mpr rfl) webAppMib rfl⟩

end MibFile

end Plethora
