import DocRelay.Manifest.Toml

namespace DocRelay.Bundle

/-!
# The bundled manifest

The configuration that is built into the command line: three packages, and the application that
shows an editor and a preview of its contents.
-/

/-- The configuration file. -/
def manifestText : String :=
  "# Build-time configuration of the bundled worker.\n" ++
  "# Packages are installed in order, one at a time, before the application runs.\n" ++
  "\n" ++
  "[worker]\n" ++
  "name = \"try-refactor\"\n" ++
  "runtime = \"native runtime\"\n" ++
  "\n" ++
  "[[packages]]\n" ++
  "locator = \"https://cdn.holoviz.org/panel/0.14.0/dist/wheels/" ++
    "bokeh-2.4.3-py3-none-any.whl\"\n" ++
  "\n" ++
  "[[packages]]\n" ++
  "locator = \"https://cdn.holoviz.org/panel/0.14.0/dist/wheels/" ++
    "panel-0.14.0-py3-none-any.whl\"\n" ++
  "\n" ++
  "[[packages]]\n" ++
  "locator = \"refactor==0.6.0\"\n" ++
  "\n" ++
  "[application]\n" ++
  "entry = \"mirror\"\n" ++
  "requires = [\"bokeh\", \"panel\", \"refactor\"]\n" ++
  "location = true\n" ++
  "\n" ++
  "[application.bindings]\n" ++
  "title = \"Try Refactor\"\n" ++
  "placeholder = \"# Write some code here\"\n"

/-- The manifest of the configuration file. -/
def manifest : Except ConfigFault WorkerManifest :=
  WorkerManifest.ofToml (Text.utf8 manifestText)

end DocRelay.Bundle
