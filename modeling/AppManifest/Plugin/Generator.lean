import AppManifest.Document
import AppManifest.Entity.Application
import AppManifest.Plugin.Failure
/-!
# Generator plugins

A generator plugin turns an application into files. The files are its result; it writes none.
-/

namespace AppManifest

/-- A file that was generated. -/
structure GeneratedFile where
  path : String
  content : String
  contentType : String
  deriving DecidableEq, Repr

/-- A plugin that generates files. -/
structure GeneratorPlugin where
  name : String
  generate : Document → Application → Except PluginFailure (List GeneratedFile) :=
    fun _ _ ↦ .error (.unsupported name .generate)

/-- The JSON form of a generated file. -/
def GeneratedFile.toJson (file : GeneratedFile) : Json :=
  .object [("path", .string file.path), ("content", .string file.content),
    ("contentType", .string file.contentType)]

/-- The JSON form of all that was generated. -/
def GeneratedFile.listToJson (files : List GeneratedFile) : Json :=
  .object [("items", .array (files.map GeneratedFile.toJson))]

end AppManifest
