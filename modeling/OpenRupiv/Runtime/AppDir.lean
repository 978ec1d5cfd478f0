import OpenRupiv.Compiler.Recompiled
import OpenRupiv.Sandbox.Files

/-!
# App directories

`loadAppDir` of `packages/runtime/src/server.ts`, on the files that `compileApp` emits.
-/

namespace OpenRupiv.Runtime

open Js Spec Compiler

inductive AppDirErrorCode where
  | ERR_APP_DIR
  | ERR_APP_SPEC_INVALID
  deriving DecidableEq

structure AppDirError where
  code : AppDirErrorCode
  message : Text
  details : List SpecError := []

/-- `loadAppDir(dir)`.  `read` gives the bytes of a file or the message of the error, and
`syntaxMessage` is the message of `JSON.parse`. -/
def loadAppDir (toNumber : Text → Num) (schemaErrors : Json → List SpecError)
    (syntaxMessage : Text → Text) (read : Text → Except Text (List UInt8)) (dir : Text) :
    Except AppDirError AppSpec :=
  let specPath := Sandbox.Files.join [dir, ofString "spec.json"]
  match read specPath with
  | .error message =>
      .error ⟨.ERR_APP_DIR,
        ofString "cannot read app spec at " ++ specPath ++ ofString ": " ++ message, []⟩
  | .ok bytes =>
      let raw := fromUtf8 bytes
      match parse toNumber raw with
      | none =>
          .error ⟨.ERR_APP_SPEC_INVALID,
            specPath ++ ofString " is not valid JSON: " ++ syntaxMessage raw, []⟩
      | some parsed =>
          match validateSpec schemaErrors parsed with
          | .error errors =>
              .error ⟨.ERR_APP_SPEC_INVALID, specPath ++ ofString (" failed spec validation with " ++
                toString errors.length ++ " error(s)"), errors⟩
          | .ok spec => .ok spec

theorem parse_specJson {toNumber : Text → Num} {document : Json}
    (hdistinct : document.distinctKeys = true)
    (hread : ∀ n ∈ document.numbers, n.isFinite = true → toNumber n.print = n.unsigned) :
    parse toNumber (readFile (stringifyIndented document ++ ofString "\n")) =
      some (reprint document) := by
  have hblank : Blank (ofString "\n") := by
    have hall : (ofString "\n").all isSpace = true := by decide
    exact List.all_eq_true.mp hall
  obtain ⟨written, hwritten⟩ :=
    (isString_indented (isString_ofString "  ") document (isString_ofString "")).append (isString_ofString "\n")
  have hfile : readFile (stringifyIndented document ++ ofString "\n") =
      stringifyIndented document ++ ofString "\n" := by
    rw [stringifyIndented, stringifyWith, show ([] : Text) = ofString "" from rfl, hwritten, readFile_ofString]
  rw [hfile, parse_stringifyIndented hdistinct hblank, Json.rebuild_reread hread]
  rfl

/-- A compiled app is loaded with the spec that it was compiled from, and compiling what was loaded
gives the same `spec.json` and the same initial migration. -/
theorem compiled_app_loads {toNumber : Text → Num} {schemaErrors : Json → List SpecError}
    {document : Json} (hdistinct : document.distinctKeys = true)
    (hread : ∀ n ∈ document.numbers, n.isFinite = true → toNumber n.print = n.unsigned)
    {spec : AppSpec} (hvalid : validateSpec schemaErrors document = .ok spec) {app : CompiledApp}
    (hcompiled : compileApp document spec = .ok app) (syntaxMessage : Text → Text)
    {read : Text → Except Text (List UInt8)} {dir : Text}
    (hfile : read (Sandbox.Files.join [dir, ofString "spec.json"]) = .ok (toUtf8 app.specJson)) :
    loadAppDir toNumber schemaErrors syntaxMessage read dir = .ok (unsignedSpec spec) ∧
      ∃ loaded, parse toNumber (readFile app.specJson) = some loaded ∧
        validateSpec schemaErrors loaded = .ok (unsignedSpec spec) ∧
        compileApp loaded (unsignedSpec spec) = .ok app := by
  have hspec := (validateSpec_eq_ok hvalid).2
  have hagain := validateSpec_reprint hdistinct hvalid
  have hrecompiled := compileApp_reprint hspec hcompiled
  obtain ⟨sql, -, rfl⟩ := compileApp_eq_ok hcompiled
  have hparse := parse_specJson hdistinct hread
  have hraw : fromUtf8 (toUtf8 (stringifyIndented document ++ ofString "\n")) =
      readFile (stringifyIndented document ++ ofString "\n") := rfl
  refine ⟨?_, reprint document, hparse, hagain, hrecompiled⟩
  rw [loadAppDir, hfile]
  simp only [hraw, hparse, hagain]

theorem compiled_app_loads_contracts : ∃ spec app,
    validateSpec (fun _ => []) contractsDocument = .ok spec ∧
      compileApp contractsDocument spec = .ok app ∧
      loadAppDir exactNumber (fun _ => []) (fun _ => []) (fun _ => .ok (toUtf8 app.specJson))
        (ofString "app") = .ok (unsignedSpec spec) ∧
      ∃ loaded, parse exactNumber (readFile app.specJson) = some loaded ∧
        validateSpec (fun _ => []) loaded = .ok (unsignedSpec spec) ∧
        compileApp loaded (unsignedSpec spec) = .ok app := by
  have haccepted : ∃ spec, validateSpec (fun _ => []) contractsDocument = .ok spec ∧
      ∃ app, compileApp contractsDocument spec = .ok app := ⟨_, rfl, _, rfl⟩
  obtain ⟨spec, hvalid, app, hcompiled⟩ := haccepted
  have hdistinct : contractsDocument.distinctKeys = true := by decide +kernel
  exact ⟨spec, app, hvalid, hcompiled, compiled_app_loads hdistinct
    (fun _ _ => exactNumber_print) hvalid hcompiled (fun _ => []) rfl⟩

end OpenRupiv.Runtime
