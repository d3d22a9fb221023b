import AppManifest.Host.FilePath
import AppManifest.Plugin.Set
import AppManifest.Resolution
/-!
# The plugins that there are

A provider plugin that writes a manifest, one that builds an image, and a generator that lists the
functions of an application; and plugins without any operation. Each can be registered under any
name.
-/

namespace AppManifest

namespace ProviderPlugin

variable {σ : Type}

/-- A plugin without any operation. -/
def bare (name : String) : ProviderPlugin σ := { name }

/-- The manifest of an application: the bucket of its provider, and how many functions it has. -/
def manifestText (request : DeployRequest) : String :=
  "bucket: " ++ request.provider.bucket.getD "default" ++
    "\nfunctions: " ++ toString request.app.functions.length ++ "\n"

/-- A plugin that deploys by writing a manifest into the directory of the project. -/
def manifest (name : String) : ProviderPlugin σ where
  name
  deploy request context :=
    context.host.write (Host.join context.directory "deploy.yaml") (manifestText request)

/-- The command that builds the image of an application. -/
def imageCommand (request : BuildRequest) (context : ProviderContext σ) : Command :=
  ((((Command.new "docker").withArgs ["build", "-t"]).arg
    (request.registry?.getD "docker.io" ++ "/app")).inDirectory
    context.directory).withEnvironment context.environment

/-- A plugin that builds images, and that can invoke every function that has a name. -/
def image (name : String) : ProviderPlugin σ where
  name
  invoke request _ :=
    if request.function = "" then throw (.failed "function name required") else pure ()
  build request context := do
    let output ← context.host.run (imageCommand request context)
    if output.success then pure ()
    else throw (.failed ("docker build failed: " ++ output.stderr))

end ProviderPlugin

namespace GeneratorPlugin

/-- A plugin without any operation. -/
def bare (name : String) : GeneratorPlugin := { name }

/-- The file for a function: named for its runtime, with the directory of its code. -/
def listingFile (function : Function) : GeneratedFile :=
  ⟨function.runtime ++ ".txt", function.codeDir, "text/plain"⟩

/-- A plugin that generates a file for every function of an application. -/
def listing (name : String) : GeneratorPlugin where
  name
  generate document app :=
    match document.resolveAll app.functions with
    | .ok functions => .ok (functions.map listingFile)
    | .error e => .error (.failed e.message)

end GeneratorPlugin

end AppManifest
